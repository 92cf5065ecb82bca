import Mathlib.Data.List.Perm.Basic
import Mathlib.Tactic.Common

/-!
# Tables of file descriptors

The descriptors that a program has obtained and not closed yet. The kernel gives out only
descriptors that are not in the table, and the table remembers what is closed without being open.
`Holds` is that the open descriptors are those of a list, each in one place of it, and that nothing
has been closed twice.
-/

namespace LibCollector.Misc

/-- The open descriptors, and those that were closed without being open. -/
structure FdTable where
  fds : List Int := []
  stray : List Int := []
  deriving DecidableEq

namespace FdTable

/-- The kernel can give out the descriptor. -/
def Free (t : FdTable) (fd : Int) : Prop := 0 ≤ fd ∧ fd ∉ t.fds

instance (t : FdTable) (fd : Int) : Decidable (t.Free fd) := inferInstanceAs (Decidable (_ ∧ _))

/-- A descriptor is given out. -/
def give (fd : Int) (t : FdTable) : FdTable := { t with fds := fd :: t.fds }

/-- `close`. -/
def close (fd : Int) (t : FdTable) : FdTable :=
  if fd ∈ t.fds then { t with fds := t.fds.erase fd } else { t with stray := fd :: t.stray }

/-- Several descriptors are closed, one after the other. -/
def closeAll (fds : List Int) (t : FdTable) : FdTable := fds.foldl (fun t fd => t.close fd) t

/-- The open descriptors are those of `held`. -/
structure Holds (t : FdTable) (held : List Int) : Prop where
  perm : t.fds.Perm held
  nodup : t.fds.Nodup
  stray : t.stray = []

theorem holds_empty : ({} : FdTable).Holds [] := ⟨List.Perm.nil, List.nodup_nil, rfl⟩

namespace Holds

variable {t : FdTable} {held held' : List Int} {fd : Int}

theorem of_perm (h : t.Holds held) (hperm : held.Perm held') : t.Holds held' :=
  ⟨h.perm.trans hperm, h.nodup, h.stray⟩

theorem give (h : t.Holds held) (hfree : t.Free fd) : (t.give fd).Holds (fd :: held) :=
  ⟨h.perm.cons fd, List.nodup_cons.mpr ⟨hfree.2, h.nodup⟩, h.stray⟩

theorem close (h : t.Holds (fd :: held)) : (t.close fd).Holds held := by
  have hmem : fd ∈ t.fds := h.perm.mem_iff.mpr List.mem_cons_self
  have hperm := h.perm.erase fd
  rw [List.erase_cons_head] at hperm
  rw [FdTable.close, if_pos hmem]
  exact ⟨hperm, h.nodup.erase fd, h.stray⟩

theorem closeAll {fds : List Int} (h : t.Holds (fds ++ held)) : (t.closeAll fds).Holds held := by
  induction fds generalizing t with
  | nil => exact h
  | cons fd fds ih => exact ih (Holds.close h)

/-- Nothing else is open. -/
theorem eq_nil_of_append {more : List Int} (h : t.Holds (more ++ held)) (h' : t.Holds held) :
    more = [] := by
  have hlen := (h.perm.symm.trans h'.perm).length_eq
  rw [List.length_append] at hlen
  exact List.eq_nil_of_length_eq_zero (by omega)

theorem fds_eq_nil_iff (h : t.Holds held) : t.fds = [] ↔ held = [] := by
  rw [← List.length_eq_zero_iff, ← List.length_eq_zero_iff, h.perm.length_eq]

end Holds

end FdTable

end LibCollector.Misc
