import ReadProgress.Json.Decoder
import ReadProgress.Json.Writer
import ReadProgress.Snapshot
import ReadProgress.Timestamp.Written

/-!
This module contains the form of snapshots in the data format: how they are written, and what is
accepted when they are read back.
-/

namespace ReadProgress

open Json (Decoder Field RecordForm)

/--
A policy for removal is a string. Whether its text makes sense is found out once the string has been
read.
-/
def Ttl.decoder : Decoder Ttl :=
  Decoder.string.andThen fun text => (Ttl.read text).mapError .ttl

def Timestamp.decoder : Decoder Timestamp :=
  .parsed "an RFC 3339 formatted date and time string" fun text =>
    (Timestamp.read text).mapError .time

namespace Row

structure Parts where
  source : Option String
  offset : Option UInt64
  timestamp : Option Timestamp
  ttl : Option Ttl
  finished : Option Bool

def form : RecordForm Parts Row where
  title := "PersistedStateV1"
  fields := [
    ⟨"source", Decoder.string.map fun x parts => { parts with source := some x },
      (·.source.isSome), false⟩,
    ⟨"offset", Decoder.uint64.map fun x parts => { parts with offset := some x },
      (·.offset.isSome), false⟩,
    ⟨"timestamp", Timestamp.decoder.map fun x parts => { parts with timestamp := some x },
      (·.timestamp.isSome), false⟩,
    ⟨"ttl", Ttl.decoder.map fun x parts => { parts with ttl := some x },
      (·.ttl.isSome), false⟩,
    ⟨"finished", Decoder.boolean.map fun x parts => { parts with finished := some x },
      (·.finished.isSome), false⟩ ]
  blank := ⟨none, none, none, none, none⟩
  finish parts := do
    let some source := parts.source | throw "source"
    let some offset := parts.offset | throw "offset"
    let some timestamp := parts.timestamp | throw "timestamp"
    let some ttl := parts.ttl | throw "ttl"
    let some finished := parts.finished | throw "finished"
    pure { source, offset, timestamp, ttl, finished }

def toJson (row : Row) : Json :=
  .object [
    ("finished", .boolean row.finished),
    ("offset", .integer row.offset.toNat),
    ("source", .string row.source),
    ("timestamp", .string row.timestamp.written),
    ("ttl", .string row.ttl.written) ]

/--
A row on its own, with its fields in their order.
-/
def written (row : Row) : Json :=
  .object [
    ("source", .string row.source),
    ("offset", .integer row.offset.toNat),
    ("timestamp", .string row.timestamp.written),
    ("ttl", .string row.ttl.written),
    ("finished", .boolean row.finished) ]

end Row

namespace Snapshot

structure Parts where
  version : Option UInt8
  rows : Option (List (String × Row))

/--
The form of a snapshot. Its version is not looked at.
-/
def form : RecordForm Parts Snapshot where
  title := "PersistedStatesV1"
  fields := [
    ⟨"version", Decoder.uint8.map fun x parts => { parts with version := some x },
      (·.version.isSome), false⟩,
    ⟨"states", Row.form.decoder.members.map fun x parts => { parts with rows := some x },
      (·.rows.isSome), false⟩ ]
  blank := ⟨none, none⟩
  finish parts := do
    let some version := parts.version | throw "version"
    let some rows := parts.rows | throw "states"
    pure { version, rows := .ofList rows, ascending := Members.ascending_ofList rows }

/--
The form of a snapshot of which nothing but the version is read, which is zero if it is missing.
-/
def versionForm : RecordForm (Option UInt8) UInt8 where
  title := "SchemaVersion"
  fields := [⟨"version", Decoder.uint8.map fun x _ => some x, (·.isSome), true⟩]
  blank := none
  finish version := pure (version.getD 0)

def toJson (snapshot : Snapshot) : Json :=
  .object [
    ("states", .object (snapshot.rows.map fun (id, row) => (id, row.toJson))),
    ("version", .integer snapshot.version.toNat) ]

/--
A snapshot on its own, with all fields in their order.
-/
def written (snapshot : Snapshot) : Json :=
  .object [
    ("version", .integer snapshot.version.toNat),
    ("states", .object (snapshot.rows.map fun (id, row) => (id, row.written))) ]

end Snapshot

end ReadProgress
