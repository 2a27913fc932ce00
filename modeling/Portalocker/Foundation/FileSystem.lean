import Mathlib.Logic.Function.Basic
import Mathlib.Tactic.Common
set_option autoImplicit false
set_option linter.unusedSectionVars false

/-!
# A POSIX file system as lock files see it

Names, inodes, open file handles and their `flock` locks.  A handle stands for
one open file description together with the user-space buffer the language's
file object keeps over it: written bytes wait there until they are flushed.
Unlinking removes a name and leaves the inode to the handles that have it open;
an inode number may be used again once it has neither a name nor an open handle.

`Owns s path h` is the state a lock file is about: `h` holds the exclusive lock
on the inode `path` names.  At most one handle does (`Owns.unique`), and it goes
on doing so until it is unlocked or closed or the path is unlinked.
-/

namespace Posix

/-- How a handle is locked. -/
inductive LockMode
  | shared
  | exclusive
  deriving DecidableEq

/-- Two handles on one inode may hold these locks together. -/
def LockMode.compatible : LockMode → LockMode → Bool
  | .shared, .shared => true
  | _, _ => false

/-- An open file: who opened it, as its how manieth, under which name, and the
inode the name had. -/
structure Handle (ι Path : Type) where
  owner : ι
  serial : Nat
  path : Path
  ino : Nat
  deriving DecidableEq

/-- The file system.  `links` is the name an inode has, `serial p` the number of
files `p` has opened. -/
structure Fs (ι Path : Type) where
  names : Path → Option Nat
  links : Nat → Option Path
  data : Nat → List UInt8
  opened : List (Handle ι Path)
  lock : Handle ι Path → Option LockMode
  buffer : Handle ι Path → List UInt8
  serial : ι → Nat

variable {ι Path : Type} [DecidableEq ι] [DecidableEq Path]

namespace Fs

/-! ## Operations -/

/-- The handle `p` gets when it opens the inode `i` under the name `path`. -/
@[simps] def handle (s : Fs ι Path) (p : ι) (path : Path) (i : Nat) : Handle ι Path where
  owner := p
  serial := s.serial p
  path := path
  ino := i

/-- A new file may use this inode number. -/
def Fresh (s : Fs ι Path) (i : Nat) : Prop :=
  s.links i = none ∧ ∀ h ∈ s.opened, h.ino ≠ i

instance (s : Fs ι Path) (i : Nat) : Decidable (s.Fresh i) :=
  inferInstanceAs (Decidable (_ ∧ _))

/-- Open the inode `i` under the name `path`. -/
@[simps] def openAt (s : Fs ι Path) (p : ι) (path : Path) (i : Nat) : Fs ι Path :=
  { s with
    opened := s.handle p path i :: s.opened
    serial := Function.update s.serial p (s.serial p + 1) }

/-- Create an empty file under the name `path`. -/
@[simps] def create (s : Fs ι Path) (path : Path) (i : Nat) : Fs ι Path :=
  { s with
    names := Function.update s.names path (some i)
    links := Function.update s.links i (some path)
    data := Function.update s.data i [] }

/-- Another handle on the same inode stands in the way of the lock. -/
def Conflicts (s : Fs ι Path) (h : Handle ι Path) (mode : LockMode) : Prop :=
  ∃ g ∈ s.opened, g ≠ h ∧ g.ino = h.ino ∧ ∃ m ∈ s.lock g, m.compatible mode = false

instance (s : Fs ι Path) (h : Handle ι Path) (mode : LockMode) :
    Decidable (s.Conflicts h mode) := by
  unfold Conflicts
  infer_instance

/-- Set or drop the lock of a handle. -/
@[simps] def setLock (s : Fs ι Path) (h : Handle ι Path) (mode : Option LockMode) : Fs ι Path :=
  { s with lock := Function.update s.lock h mode }

/-- Replace what the file and the handle's buffer hold. -/
@[simps] def store (s : Fs ι Path) (h : Handle ι Path) (content pending : List UInt8) :
    Fs ι Path :=
  { s with
    data := Function.update s.data h.ino content
    buffer := Function.update s.buffer h pending }

/-- Bytes written through the handle wait in its buffer; the first `n` of all
waiting bytes reach the file. -/
def write (s : Fs ι Path) (h : Handle ι Path) (bytes : List UInt8) (n : Nat) : Fs ι Path :=
  s.store h (s.data h.ino ++ (s.buffer h ++ bytes).take n) ((s.buffer h ++ bytes).drop n)

/-- All waiting bytes reach the file. -/
def flush (s : Fs ι Path) (h : Handle ι Path) : Fs ι Path :=
  s.store h (s.data h.ino ++ s.buffer h) []

/-- Empty the file; waiting bytes reach it before. -/
def truncate (s : Fs ι Path) (h : Handle ι Path) : Fs ι Path :=
  s.store h [] []

/-- Forget an open handle and its lock. -/
@[simps] def discard (s : Fs ι Path) (h : Handle ι Path) : Fs ι Path :=
  { s with
    opened := s.opened.filter (· ≠ h)
    lock := Function.update s.lock h none }

/-- Close a handle: flush it, then give it up. -/
def close (s : Fs ι Path) (h : Handle ι Path) : Fs ι Path :=
  (s.flush h).discard h

/-- A process dies: the system closes its files, and what waits in their buffers is lost. -/
@[simps] def abandon (s : Fs ι Path) (p : ι) : Fs ι Path :=
  { s with
    opened := s.opened.filter (·.owner ≠ p)
    lock := fun h => if h.owner = p then none else s.lock h
    buffer := fun h => if h.owner = p then [] else s.buffer h }

/-- Remove a name. -/
@[simps] def unlink (s : Fs ι Path) (path : Path) : Fs ι Path :=
  { s with
    names := Function.update s.names path none
    links := fun i => if s.names path = some i then none else s.links i }

/-! ## Well-formedness -/

/-- What every reachable file system satisfies. -/
structure Wf (s : Fs ι Path) : Prop where
  serial_lt : ∀ {h}, h ∈ s.opened → h.serial < s.serial h.owner
  lock_open : ∀ {h}, h ∉ s.opened → s.lock h = none
  buffer_open : ∀ {h}, h ∉ s.opened → s.buffer h = []
  names_links : ∀ {path i}, s.names path = some i ↔ s.links i = some path
  opened_link : ∀ {h}, h ∈ s.opened → s.links h.ino = some h.path ∨ s.links h.ino = none
  lock_exclusive : ∀ {g h}, g.ino = h.ino → s.lock h = some .exclusive → s.lock g ≠ none → g = h

/-- `h` holds the exclusive lock on the inode `path` names. -/
def Owns (s : Fs ι Path) (path : Path) (h : Handle ι Path) : Prop :=
  s.names path = some h.ino ∧ s.lock h = some .exclusive

/-- A file that neither has a name nor can get one again while `h` is open. -/
def Stale (s : Fs ι Path) (h : Handle ι Path) : Prop := s.links h.ino = none

section Wf

variable {s : Fs ι Path} {g h : Handle ι Path} {p : ι} {path : Path} {i : Nat}

theorem Wf.opened_of_lock (hs : s.Wf) {m : LockMode} (h' : s.lock h = some m) : h ∈ s.opened := by
  by_contra hopen
  rw [hs.lock_open hopen] at h'
  cases h'

/-- At most one handle holds the lock on what a path names. -/
theorem Owns.unique (hs : s.Wf) (hg : s.Owns path g) (hh : s.Owns path h) : g = h := by
  have hino : g.ino = h.ino := Option.some.inj (hg.1.symm.trans hh.1)
  exact hs.lock_exclusive hino hh.2 (by simp [hg.2])

theorem Wf.handle_not_mem (hs : s.Wf) : s.handle p path i ∉ s.opened :=
  fun hmem => absurd (hs.serial_lt hmem) (by simp)

/-- A path names the inode of an open handle only under the handle's own name. -/
theorem Wf.path_of_names (hs : s.Wf) (hmem : h ∈ s.opened) (hn : s.names path = some h.ino) :
    h.path = path := by
  have hl : s.links h.ino = some path := hs.names_links.1 hn
  rcases hs.opened_link hmem with h' | h' <;> rw [hl] at h'
  · exact (Option.some.inj h').symm
  · cases h'

theorem Wf.openAt (hs : s.Wf) (hn : s.names path = some i) : (s.openAt p path i).Wf where
  serial_lt := by
    intro h hmem
    simp only [openAt_opened, List.mem_cons] at hmem
    rcases hmem with rfl | hmem
    · simp
    · have hlt := hs.serial_lt hmem
      by_cases hp : h.owner = p
      · simp only [openAt_serial, hp, Function.update_self] at hlt ⊢
        omega
      · simpa [Function.update_of_ne hp] using hlt
  lock_open := fun hmem => hs.lock_open fun h' => hmem (by simp [h'])
  buffer_open := fun hmem => hs.buffer_open fun h' => hmem (by simp [h'])
  names_links := hs.names_links
  opened_link := by
    intro h hmem
    simp only [openAt_opened, List.mem_cons] at hmem
    rcases hmem with rfl | hmem
    · exact Or.inl (by simpa using hs.names_links.1 hn)
    · exact hs.opened_link hmem
  lock_exclusive := hs.lock_exclusive

theorem Wf.create (hs : s.Wf) (hn : s.names path = none) (hi : s.Fresh i) :
    (s.create path i).Wf where
  serial_lt := hs.serial_lt
  lock_open := hs.lock_open
  buffer_open := hs.buffer_open
  names_links := by
    intro path' i'
    simp only [create_names, create_links, Function.update_apply]
    by_cases hp : path' = path <;> by_cases hi' : i' = i
    · simp [hp, hi']
    · simp only [hp, hi', if_true, if_false, Option.some.injEq]
      constructor
      · exact fun h => absurd h.symm hi'
      · intro h
        rw [← hs.names_links, hn] at h
        cases h
    · simp only [hp, hi', if_true, if_false, Option.some.injEq]
      constructor
      · intro h
        rw [hs.names_links, hi.1] at h
        cases h
      · exact fun h => absurd h.symm hp
    · simp [hp, hi', hs.names_links]
  opened_link := by
    intro h hmem
    simpa [Function.update_of_ne (hi.2 h hmem)] using hs.opened_link hmem
  lock_exclusive := hs.lock_exclusive

theorem Wf.store (hs : s.Wf) (hmem : h ∈ s.opened) (content pending : List UInt8) :
    (s.store h content pending).Wf where
  serial_lt := hs.serial_lt
  lock_open := hs.lock_open
  buffer_open := by
    intro g hg
    have hne : g ≠ h := fun heq => hg (heq ▸ hmem)
    simpa [Function.update_of_ne hne] using hs.buffer_open hg
  names_links := hs.names_links
  opened_link := hs.opened_link
  lock_exclusive := hs.lock_exclusive

theorem Wf.setLock_none (hs : s.Wf) : (s.setLock h none).Wf where
  serial_lt := hs.serial_lt
  lock_open := by
    intro g hg
    by_cases hne : g = h
    · simp [hne]
    · simpa [Function.update_of_ne hne] using hs.lock_open hg
  buffer_open := hs.buffer_open
  names_links := hs.names_links
  opened_link := hs.opened_link
  lock_exclusive := by
    intro g g' hino he hn
    simp only [setLock_lock, Function.update_apply] at he hn
    split at he
    · cases he
    · split at hn
      · exact absurd rfl hn
      · exact hs.lock_exclusive hino he hn

theorem Wf.setLock_some (hs : s.Wf) {mode : LockMode} (hmem : h ∈ s.opened)
    (hc : ¬ s.Conflicts h mode) : (s.setLock h (some mode)).Wf where
  serial_lt := hs.serial_lt
  lock_open := by
    intro g hg
    have hne : g ≠ h := fun heq => hg (heq ▸ hmem)
    simpa [Function.update_of_ne hne] using hs.lock_open hg
  buffer_open := hs.buffer_open
  names_links := hs.names_links
  opened_link := hs.opened_link
  lock_exclusive := by
    -- a lock on the same inode by another handle would have been a conflict
    have hfree : ∀ {g m}, g ≠ h → g.ino = h.ino → s.lock g = some m → m.compatible mode = true := by
      intro g m hne hino hl
      by_contra hm
      exact hc ⟨g, hs.opened_of_lock hl, hne, hino, m, hl, by simpa using hm⟩
    intro g g' hino he hn
    simp only [setLock_lock, Function.update_apply] at he hn
    by_cases hg : g = h <;> by_cases hg' : g' = h
    · rw [hg, hg']
    · rw [if_neg hg'] at he
      have := hfree hg' (by rw [← hino, hg]) he
      simp [LockMode.compatible] at this
    · rw [if_neg hg] at hn
      rw [if_pos hg', Option.some.injEq] at he
      obtain ⟨m, hm⟩ := Option.ne_none_iff_exists'.1 hn
      have := hfree hg (by rw [hino, hg']) hm
      rw [he] at this
      cases m <;> simp [LockMode.compatible] at this
    · rw [if_neg hg'] at he
      rw [if_neg hg] at hn
      exact hs.lock_exclusive hino he hn

theorem Wf.discard (hs : s.Wf) (hb : s.buffer h = []) : (s.discard h).Wf where
  serial_lt := fun hmem => hs.serial_lt (List.mem_filter.1 hmem).1
  lock_open := by
    intro g hg
    by_cases hne : g = h
    · simp [hne]
    · have : g ∉ s.opened := fun hmem => hg (by simp [hmem, hne])
      simpa [Function.update_of_ne hne] using hs.lock_open this
  buffer_open := by
    intro g hg
    by_cases hne : g = h
    · simpa [hne] using hb
    · exact hs.buffer_open fun hmem => hg (by simp [hmem, hne])
  names_links := hs.names_links
  opened_link := fun hmem => hs.opened_link (List.mem_filter.1 hmem).1
  lock_exclusive := fun hino he hn => hs.setLock_none.lock_exclusive hino he hn

theorem Wf.close (hs : s.Wf) (hmem : h ∈ s.opened) : (s.close h).Wf :=
  (hs.store hmem _ _).discard (by simp)

theorem Wf.abandon (hs : s.Wf) : (s.abandon p).Wf where
  serial_lt := fun hmem => hs.serial_lt (List.mem_filter.1 hmem).1
  lock_open := by
    intro h hclosed
    by_cases hp : h.owner = p
    · simp [hp]
    · have hnot : h ∉ s.opened := fun hmem => hclosed (by simp [hmem, hp])
      simpa [hp] using hs.lock_open hnot
  buffer_open := by
    intro h hclosed
    by_cases hp : h.owner = p
    · simp [hp]
    · have hnot : h ∉ s.opened := fun hmem => hclosed (by simp [hmem, hp])
      simpa [hp] using hs.buffer_open hnot
  names_links := hs.names_links
  opened_link := fun hmem => hs.opened_link (List.mem_filter.1 hmem).1
  lock_exclusive := by
    intro g h hino he hn
    simp only [abandon_lock] at he hn
    split at he
    · cases he
    · split at hn
      · exact absurd rfl hn
      · exact hs.lock_exclusive hino he hn

theorem Wf.unlink (hs : s.Wf) : (s.unlink path).Wf where
  serial_lt := hs.serial_lt
  lock_open := hs.lock_open
  buffer_open := hs.buffer_open
  names_links := by
    intro path' i
    simp only [unlink_names, unlink_links, Function.update_apply]
    by_cases hp : path' = path
    · by_cases hi : s.names path = some i
      · simp [hp, hi]
      · have hl : s.links i ≠ some path := fun h => hi (hs.names_links.2 h)
        simp [hp, hi, hl]
    · by_cases hi : s.names path = some i
      · have hn : s.names path' ≠ some i := by
          intro h
          exact hp (Option.some.inj ((hs.names_links.1 h).symm.trans (hs.names_links.1 hi)))
        simp [hp, hi, hn]
      · simp [hp, hi, hs.names_links]
  opened_link := by
    intro h hmem
    by_cases hi : s.names path = some h.ino
    · simp [hi]
    · simpa [hi] using hs.opened_link hmem
  lock_exclusive := hs.lock_exclusive

end Wf

/-! ## Frames -/

/-- Nothing about the handle itself has changed, and its inode has not got its
name back. -/
structure Keeps (h : Handle ι Path) (s s' : Fs ι Path) : Prop where
  mem : h ∈ s'.opened ↔ h ∈ s.opened
  lock : s'.lock h = s.lock h
  buffer : s'.buffer h = s.buffer h
  stale : h ∈ s.opened → s.Stale h → s'.Stale h

namespace Keeps

variable {s s' s'' : Fs ι Path} {g h : Handle ι Path} {p : ι} {path : Path} {i : Nat}

theorem refl (h : Handle ι Path) (s : Fs ι Path) : Keeps h s s :=
  ⟨Iff.rfl, rfl, rfl, fun _ h => h⟩

theorem trans (h₁ : Keeps h s s') (h₂ : Keeps h s' s'') : Keeps h s s'' where
  mem := h₂.mem.trans h₁.mem
  lock := h₂.lock.trans h₁.lock
  buffer := h₂.buffer.trans h₁.buffer
  stale := fun hm hs => h₂.stale (h₁.mem.2 hm) (h₁.stale hm hs)

theorem openAt (hne : h.owner ≠ p) : Keeps h s (s.openAt p path i) where
  mem := by
    have : h ≠ s.handle p path i := fun heq => hne (by rw [heq]; rfl)
    simp [this]
  lock := rfl
  buffer := rfl
  stale := fun _ h => h

theorem create (hi : s.Fresh i) : Keeps h s (s.create path i) where
  mem := Iff.rfl
  lock := rfl
  buffer := rfl
  stale := fun hm hs => by simpa [Stale, Function.update_of_ne (hi.2 h hm)] using hs

theorem setLock (hne : h ≠ g) (mode : Option LockMode) : Keeps h s (s.setLock g mode) where
  mem := Iff.rfl
  lock := by simp [Function.update_of_ne hne]
  buffer := rfl
  stale := fun _ h => h

theorem store (hne : h ≠ g) (content pending : List UInt8) :
    Keeps h s (s.store g content pending) where
  mem := Iff.rfl
  lock := rfl
  buffer := by simp [Function.update_of_ne hne]
  stale := fun _ h => h

theorem discard (hne : h ≠ g) : Keeps h s (s.discard g) where
  mem := by simp [hne]
  lock := by simp [Function.update_of_ne hne]
  buffer := rfl
  stale := fun _ h => h

theorem close (hne : h ≠ g) : Keeps h s (s.close g) :=
  (store hne _ _).trans (discard hne)

theorem abandon (hne : h.owner ≠ p) : Keeps h s (s.abandon p) where
  mem := by simp [hne]
  lock := by simp [hne]
  buffer := by simp [hne]
  stale := fun _ h => h

theorem unlink : Keeps h s (s.unlink path) where
  mem := Iff.rfl
  lock := rfl
  buffer := rfl
  stale := by
    intro _ hs
    simp only [Stale, unlink_links] at hs ⊢
    split
    · rfl
    · exact hs

end Keeps

end Fs

end Posix
