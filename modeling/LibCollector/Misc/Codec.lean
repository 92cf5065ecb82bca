import Mathlib.Data.List.Basic
import Mathlib.Tactic.Common

/-!
# Codecs

A codec writes a value as a list and reads it back from any list that starts with it. A
layout is the whole of a list: some fields, each with a codec, and an end. Not all values
of a type need to be valid.
-/

namespace LibCollector.Misc

variable {σ α β : Type}

/-- A value that stands at the start of a list. -/
structure Codec (σ α : Type) where
  Valid : α → Prop
  enc : α → List σ
  dec : List σ → Option (α × List σ)
  dec_enc : ∀ a rest, Valid a → dec (enc a ++ rest) = some (a, rest)

/-- A value that is a whole list. -/
structure Layout (σ α : Type) where
  Valid : α → Prop
  enc : α → List σ
  dec : List σ → Option α
  dec_enc : ∀ a, Valid a → dec (enc a) = some a

namespace Codec

/-- A value that is given by another one. -/
def map (c : Codec σ α) (f : α → Option β) (g : β → α) (h : ∀ b, f (g b) = some b) : Codec σ β where
  Valid b := c.Valid (g b)
  enc b := c.enc (g b)
  dec xs := (c.dec xs).bind fun r => (f r.1).map fun b => (b, r.2)
  dec_enc b rest hb := by rw [c.dec_enc _ _ hb, Option.bind_some, h, Option.map_some]

/-- A value after another one. -/
def pair (c : Codec σ α) (d : Codec σ β) : Codec σ (α × β) where
  Valid p := c.Valid p.1 ∧ d.Valid p.2
  enc p := c.enc p.1 ++ d.enc p.2
  dec xs := (c.dec xs).bind fun r => (d.dec r.2).map fun s => ((r.1, s.1), s.2)
  dec_enc p rest hp := by
    rw [List.append_assoc, c.dec_enc _ _ hp.1, Option.bind_some, d.dec_enc _ _ hp.2,
      Option.map_some]

/-- The values that a list starts with. -/
def decMany (c : Codec σ α) : Nat → List σ → Option (List α × List σ)
  | 0, xs => some ([], xs)
  | n + 1, xs => (c.dec xs).bind fun r => (c.decMany n r.2).map fun s => (r.1 :: s.1, s.2)

theorem decMany_enc (c : Codec σ α) {as : List α} (has : ∀ a ∈ as, c.Valid a) (rest : List σ) :
    c.decMany as.length (as.flatMap c.enc ++ rest) = some (as, rest) := by
  induction as with
  | nil => rfl
  | cons a as ih =>
    rcases List.forall_mem_cons.mp has with ⟨ha, has⟩
    rw [List.length_cons, decMany, List.flatMap_cons, List.append_assoc, c.dec_enc _ _ ha,
      Option.bind_some, ih has, Option.map_some]

/-- A number of values, one after another. -/
def many (c : Codec σ α) (n : Nat) : Codec σ (List α) where
  Valid as := as.length = n ∧ ∀ a ∈ as, c.Valid a
  enc as := as.flatMap c.enc
  dec := c.decMany n
  dec_enc as rest has := by rw [← has.1, c.decMany_enc has.2]

end Codec

namespace Layout

/-- A field, and what follows. -/
def field (c : Codec σ α) (l : Layout σ β) : Layout σ (α × β) where
  Valid p := c.Valid p.1 ∧ l.Valid p.2
  enc p := c.enc p.1 ++ l.enc p.2
  dec xs := (c.dec xs).bind fun r => (l.dec r.2).map fun b => (r.1, b)
  dec_enc p hp := by rw [c.dec_enc _ _ hp.1, Option.bind_some, l.dec_enc _ hp.2, Option.map_some]

/-- A field that the layout of what follows depends on. -/
def dep (c : Codec σ α) (l : α → Layout σ β) : Layout σ (α × β) where
  Valid p := c.Valid p.1 ∧ (l p.1).Valid p.2
  enc p := c.enc p.1 ++ (l p.1).enc p.2
  dec xs := (c.dec xs).bind fun r => ((l r.1).dec r.2).map fun b => (r.1, b)
  dec_enc p hp := by
    rw [c.dec_enc _ _ hp.1, Option.bind_some, (l p.1).dec_enc _ hp.2, Option.map_some]

/-- The end of the list. -/
def done : Layout σ Unit where
  Valid _ := True
  enc _ := []
  dec xs := if xs.isEmpty then some () else none
  dec_enc _ _ := rfl

theorem dec_of_eq (l : Layout σ α) (a : α) {xs : List σ} (h : xs = l.enc a) (ha : l.Valid a) :
    l.dec xs = some a := by
  rw [h, l.dec_enc a ha]

end Layout

end LibCollector.Misc
