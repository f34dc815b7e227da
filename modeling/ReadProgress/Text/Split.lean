/-!
This module contains the splitting of texts at a character, and the joining of what was split.
-/

namespace ReadProgress

def splitAt (c : Char) : List Char → List (List Char)
  | [] => [[]]
  | d :: rest =>
    if d = c then
      [] :: splitAt c rest
    else
      match splitAt c rest with
      | [] => [[d]]
      | piece :: pieces => (d :: piece) :: pieces

def joinWith (c : Char) : List (List Char) → List Char
  | [] => []
  | [piece] => piece
  | piece :: pieces => piece ++ c :: joinWith c pieces

theorem splitAt_ne_nil (c : Char) (text : List Char) : splitAt c text ≠ [] := by
  cases text with
  | nil => simp [splitAt]
  | cons d rest =>
    simp only [splitAt]
    split
    . simp
    . split <;> simp

theorem joinWith_splitAt (c : Char) (text : List Char) : joinWith c (splitAt c text) = text := by
  induction text with
  | nil => rfl
  | cons d rest ih =>
    have hne := splitAt_ne_nil c rest
    simp only [splitAt]
    split
    . next h =>
      subst h
      cases hrest : splitAt d rest with
      | nil => exact absurd hrest hne
      | cons piece pieces => rw [hrest] at ih; simp [joinWith, ih]
    . cases hrest : splitAt c rest with
      | nil => exact absurd hrest hne
      | cons piece pieces =>
        rw [hrest] at ih
        cases pieces <;> simp_all [joinWith]

/--
The text in front of the first place where a certain character stands and the text behind it, if
there is such a place.
-/
def splitFirst (c : Char) : List Char → List Char × Option (List Char)
  | [] => ([], none)
  | d :: rest =>
    if d = c then
      ([], some rest)
    else
      let (front, behind) := splitFirst c rest
      (d :: front, behind)

end ReadProgress
