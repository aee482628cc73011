import Relocation.Binary64

/-!
How alike two words are, by the measure of Jaro: the share of characters of either word that have a
partner not far away in the other, and the share of partners that stand in the same order.
-/

set_option autoImplicit false

namespace Relocation.Text

/-- Takes the first free place in a window of a word that holds a character: the places before the
window are left out, those after its end too. -/
def takePlace (c : Char) (start stop : Nat) (place : Nat) :
    List (Char × Bool) → Option (List (Char × Bool))
  | [] => none
  | (d, taken) :: rest =>
    if stop ≤ place then none
    else if start ≤ place && c == d && !taken then some ((d, true) :: rest)
    else (takePlace c start stop (place + 1) rest).map ((d, taken) :: ·)

/-- The characters of a word that find partners in another, each the first free one within reach,
and the other word with its taken places. -/
def pairUp (reach : Nat) (place : Nat) (other : List (Char × Bool)) :
    List Char → List Char × List (Char × Bool)
  | [] => ([], other)
  | c :: rest =>
    match takePlace c (place - reach) (place + reach + 1) 0 other with
    | none => pairUp reach (place + 1) other rest
    | some other =>
      let (found, last) := pairUp reach (place + 1) other rest
      (c :: found, last)

/-- How alike two words are, from 0 for nothing in common to 1 for equal words. -/
def similarity (a b : String) : Binary64 :=
  if a.isEmpty && b.isEmpty then .ofNat 1
  else if a.isEmpty || b.isEmpty then .ofNat 0
  else
    let reach := max a.length b.length / 2 - 1
    let (found, places) := pairUp reach 0 (b.toList.map (·, false)) a.toList
    let partners := (places.filter (·.2)).map (·.1)
    let matched := Binary64.ofNat found.length
    let moved := ((found.zip partners).filter fun p => p.1 != p.2).length / 2
    if found.isEmpty then .ofNat 0
    else (((matched.div (.ofNat a.length)).add (matched.div (.ofNat b.length))).add
      ((Binary64.ofNat (found.length - moved)).div matched)).div (.ofNat 3)

def alikeAbove : Binary64 := .ofRatio false 7 10

/-- The entry whose name is most like a word, if one is alike; of equals the last. -/
def mostAlike {α : Type} (name : α → String) (word : String) (entries : List α) : Option α :=
  (entries.foldl (fun (best : Option (α × Binary64)) x =>
    let s := similarity word (name x)
    if s.bits ≤ alikeAbove.bits then best
    else match best with
      | some (y, t) => if t.bits ≤ s.bits then some (x, s) else some (y, t)
      | none => some (x, s)) none).map (·.1)

end Relocation.Text
