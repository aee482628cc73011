/-!
Keys of namespaced objects, ordered by namespace and then by name.
-/

set_option autoImplicit false

namespace Relocation

/-- The namespace and the name of an object. -/
structure ObjectKey where
  space : String
  name : String
  deriving DecidableEq, Repr, Inhabited

namespace ObjectKey

def text (k : ObjectKey) : String := k.space ++ "/" ++ k.name

/-- By namespace first. -/
instance : Ord ObjectKey := ⟨compareLex (compareOn space) (compareOn name)⟩

instance : Std.TransOrd ObjectKey :=
  inferInstanceAs (Std.TransCmp (compareLex (compareOn space) (compareOn name)))

instance : Std.LawfulEqOrd ObjectKey where
  eq_of_compare {a b} h := by
    have h' : compareLex (compareOn space) (compareOn name) a b = .eq := h
    rw [compareLex_eq_eq] at h'
    cases a
    cases b
    simp only [compareOn] at h'
    have h1 := Std.LawfulEqOrd.eq_of_compare h'.1
    have h2 := Std.LawfulEqOrd.eq_of_compare h'.2
    simp_all

def sorted (keys : List ObjectKey) : List ObjectKey :=
  let before (a b : ObjectKey) : Bool := (compare a b).isLE
  (keys.mergeSort before).eraseDups

end ObjectKey

end Relocation
