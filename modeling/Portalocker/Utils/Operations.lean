import Portalocker.Utils.BoundedSemaphore
set_option autoImplicit false
set_option linter.unusedSectionVars false

/-!
# What one operation can do

`Change` lists every way an operation can change the world, so that an invariant
is checked once for each kind of change and not for each branch of
`Config.performOp`.  The attributes of the world that every run keeps well formed
(`World.Wf`) come first, and the rule a triple uses for one operation last.
-/

namespace Portalocker

open Posix Interleaving

variable {ι : Type} [DecidableEq ι]

/-- Every way operation `o` of client `p` can change the world. -/
inductive Change (cfg : Config ι) (p : ι) (w : World ι) : Op ι → World ι → Prop
  | same (o : Op ι) : Change cfg p w o w
  | setFh (v : Option (Handle ι Path)) : Change cfg p w (.setFh v) (w.setFh p v)
  | setInnerLock (b : Bool) : Change cfg p w (.setInnerLock b) (w.setInner p b)
  | discardLock : Change cfg p w .discardLock (w.discardLock p)
  | setAcquiredLock (b : Bool) :
      Change cfg p w (.setAcquiredLock b) { w with acquired := Function.update w.acquired p b }
  | setAcquireCount (n : Nat) :
      Change cfg p w (.setAcquireCount n)
        { w with acquireCount := Function.update w.acquireCount p n }
  | drop (h : Handle ι Path) : Change cfg p w (.drop h) (w.drop h)
  | openAt (path : Path) (kind : OpenKind) (i : Nat) (hn : w.names path = some i) :
      Change cfg p w (.openFile path kind) (w.openAt p path i)
  | openEmptied (path : Path) (i : Nat) (hn : w.names path = some i) :
      Change cfg p w (.openFile path .write) ((w.emptyFile i).openAt p path i)
  | create (path : Path) (kind : OpenKind) (i : Nat) (hn : w.names path = none) (hi : w.Fresh i)
      (hkind : kind ≠ .read) :
      Change cfg p w (.openFile path kind)
        ((w.create path i (if (cfg.object p).pidPath = some path then some p else none)).openAt
          p path i)
  | lock (h : Handle ι Path) (flags : LockFlags) (mode : LockMode) (hm : flags.mode = some mode)
      (ho : h ∈ w.opened) (hc : ¬ w.Conflicts h mode) :
      Change cfg p w (.flock h flags) (w.lockHandle h mode)
  | unlock (h : Handle ι Path) (ho : h ∈ w.opened) :
      Change cfg p w (.unlock h) (w.unlockHandle h)
  | close (h : Handle ι Path) (ho : h ∈ w.opened) (content : List UInt8)
      (hcontent : content = w.data h.ino ++ w.buffer h ∨ content = w.data h.ino) :
      Change cfg p w (.close h) ((w.store h content []).discard h)
  | seek (h : Handle ι Path) (ho : h ∈ w.opened) :
      Change cfg p w (.seek h) (w.store h (w.data h.ino ++ w.buffer h) [])
  | flush (h : Handle ι Path) (ho : h ∈ w.opened) :
      Change cfg p w (.flush h) (w.store h (w.data h.ino ++ w.buffer h) [])
  | truncate (h : Handle ι Path) (ho : h ∈ w.opened) :
      Change cfg p w (.truncate h)
        ((w.store h [] []).record h fun s => ⟨s.handle, true, []⟩)
  | write (h : Handle ι Path) (bytes : List UInt8) (bufferSize n : Nat) (ho : h ∈ w.opened)
      (hn : n = 0 ∨ bufferSize < (w.buffer h ++ bytes).length) :
      Change cfg p w (.write h bytes bufferSize)
        ((w.store h (w.data h.ino ++ (w.buffer h ++ bytes).take n)
          ((w.buffer h ++ bytes).drop n)).record h fun s =>
            ⟨s.handle, s.truncated, s.bytes ++ bytes⟩)
  | compare (path : Path) (i : Nat) (hn : w.names path = some i) :
      Change cfg p w (.stat path) (w.compare p path i)
  | unlink (path : Path) (i : Nat) (hn : w.names path = some i) :
      Change cfg p w (.unlink path)
        (w.unlink p path ((cfg.object p).lockPath = some path))
  | acquired :
      Change cfg p w .acquired { w with held := Function.update w.held p true }
  | readPidCalled :
      Change cfg p w .readPidCalled { w with
        seen := Function.update w.seen p w.verified
        answer := Function.update w.answer p none }
  | readPidReturns (v : Option Int) :
      Change cfg p w (.readPidReturns v) { w with answer := Function.update w.answer p (some v) }

namespace Config

variable {cfg : Config ι} {choice : Choice} {p : ι} {c : Call} {w w' : World ι} {o : Op ι}
  {r : Except Exc (Val o)}

/-- An operation takes effect or raises what the configuration allows. -/
theorem performOp_cases (h : cfg.performOp choice p c w o = some (r, w')) :
    cfg.act choice p w o = some (r, w') ∨
      ∃ e, cfg.mayRaise c o e = true ∧ r = .error e ∧ w' = afterFault w o := by
  unfold performOp at h
  cases hf : choice.fault with
  | none => exact Or.inl (by simpa [hf] using h)
  | some e =>
      simp only [hf, Option.ite_none_right_eq_some, Option.some.injEq, Prod.mk.injEq] at h
      exact Or.inr ⟨e, h.1, h.2.1.symm, h.2.2.symm⟩

theorem onOpen_cases {h : Handle ι Path} {α : Type} {a : Except Exc α}
    {x : Option (Except Exc α × World ι)} (hx : onOpen w h x = some (a, w')) :
    (h ∈ w.opened ∧ x = some (a, w')) ∨ (a = .error .valueError ∧ w' = w) := by
  unfold onOpen at hx
  split at hx
  · exact Or.inl ⟨‹_›, hx⟩
  · simp only [Option.some.injEq, Prod.mk.injEq] at hx
    exact Or.inr ⟨hx.1.symm, hx.2.symm⟩

theorem act_change (h : cfg.act choice p w o = some (r, w')) : Change cfg p w o w' := by
  cases o with
  | fh | innerLock | acquiredLock | acquireCount | pathExists | sleep =>
      simp only [act, Option.some.injEq, Prod.mk.injEq] at h
      exact h.2 ▸ .same _
  | setFh | setInnerLock | discardLock | setAcquiredLock | setAcquireCount | drop | acquired
    | readPidCalled | readPidReturns =>
      simp only [act, Option.some.injEq, Prod.mk.injEq] at h
      obtain ⟨-, rfl⟩ := h
      constructor
  | attempts timeout =>
      simp only [act, Option.ite_none_left_eq_some, Option.some.injEq, Prod.mk.injEq] at h
      exact h.2.2 ▸ .same _
  | openFile path kind =>
      simp only [act] at h
      split at h
      · split at h
        · simp only [Option.some.injEq, Prod.mk.injEq] at h
          exact h.2 ▸ .same _
        · simp only [Option.some.injEq, Prod.mk.injEq] at h
          exact h.2 ▸ .openEmptied path _ ‹_›
        · simp only [Option.some.injEq, Prod.mk.injEq] at h
          exact h.2 ▸ .openAt path kind _ ‹_›
      · split at h
        · simp only [Option.some.injEq, Prod.mk.injEq] at h
          exact h.2 ▸ .same _
        · rename_i hkind
          simp only [Option.ite_none_right_eq_some, Option.some.injEq, Prod.mk.injEq] at h
          exact h.2.2 ▸ .create path kind _ ‹_› h.1 hkind
  | flock f flags =>
      simp only [act] at h
      rcases onOpen_cases h with ⟨ho, h⟩ | ⟨-, rfl⟩
      · split at h
        · simp only [Option.some.injEq, Prod.mk.injEq] at h
          exact h.2 ▸ .same _
        · split at h
          · simp only [Option.ite_none_right_eq_some, Option.some.injEq, Prod.mk.injEq] at h
            exact h.2.2 ▸ .same _
          · simp only [Option.some.injEq, Prod.mk.injEq] at h
            exact h.2 ▸ .lock f flags _ ‹_› ho ‹_›
      · exact .same _
  | unlock f | seek f | truncate f | flush f =>
      simp only [act] at h
      rcases onOpen_cases h with ⟨ho, h⟩ | ⟨-, rfl⟩
      · simp only [Option.some.injEq, Prod.mk.injEq] at h
        obtain ⟨-, rfl⟩ := h
        constructor
        exact ho
      · exact .same _
  | fsync f | read f | fstat f =>
      simp only [act] at h
      rcases onOpen_cases h with ⟨ho, h⟩ | ⟨-, rfl⟩
      · simp only [Option.some.injEq, Prod.mk.injEq] at h
        exact h.2 ▸ .same _
      · exact .same _
  | write f bytes bufferSize =>
      simp only [act] at h
      rcases onOpen_cases h with ⟨ho, h⟩ | ⟨-, rfl⟩
      · simp only [Option.ite_none_right_eq_some, Option.some.injEq, Prod.mk.injEq] at h
        exact h.2.2 ▸ .write f bytes bufferSize _ ho (h.1.imp_right And.left)
      · exact .same _
  | close f =>
      simp only [act] at h
      split at h
      · simp only [Option.some.injEq, Prod.mk.injEq] at h
        exact h.2 ▸ .close f ‹_› _ (Or.inl rfl)
      · simp only [Option.some.injEq, Prod.mk.injEq] at h
        exact h.2 ▸ .same _
  | stat path =>
      simp only [act] at h
      split at h
      · simp only [Option.some.injEq, Prod.mk.injEq] at h
        exact h.2 ▸ .compare path _ ‹_›
      · simp only [Option.some.injEq, Prod.mk.injEq] at h
        exact h.2 ▸ .same _
  | unlink path =>
      simp only [act] at h
      split at h
      · simp only [Option.some.injEq, Prod.mk.injEq] at h
        exact h.2 ▸ .unlink path _ ‹_›
      · simp only [Option.some.injEq, Prod.mk.injEq] at h
        exact h.2 ▸ .same _

/-- A raised exception changes nothing, except that `close` has closed. -/
theorem afterFault_change (w : World ι) (o : Op ι) : Change cfg p w o (afterFault w o) := by
  unfold afterFault
  split
  · split
    · exact .close _ ‹_› _ (Or.inr rfl)
    · exact .same _
  · exact .same _

/-- An operation that raises without a fault changes nothing. -/
theorem act_error {e : Exc} (h : cfg.act choice p w o = some (.error e, w')) :
    w' = afterFault w o := by
  cases o with
  | openFile path kind =>
      simp only [act] at h
      split at h
      · split at h <;> simp only [Option.some.injEq, Prod.mk.injEq, reduceCtorEq, false_and] at h
        exact h.2.symm
      · split at h <;>
          simp only [Option.ite_none_right_eq_some, Option.some.injEq, Prod.mk.injEq, reduceCtorEq,
            false_and, and_false] at h
        exact h.2.symm
  | flock k flags =>
      simp only [act] at h
      rcases onOpen_cases h with ⟨-, h⟩ | ⟨-, rfl⟩
      · split at h
        · simp only [Option.some.injEq, Prod.mk.injEq] at h
          exact h.2.symm
        · split at h <;>
            simp only [Option.ite_none_right_eq_some, Option.some.injEq, Prod.mk.injEq,
              reduceCtorEq, false_and] at h
          exact h.2.2.symm
      · rfl
  | unlock k | seek k | truncate k | flush k | fsync k | read k | fstat k | write k =>
      simp only [act] at h
      rcases onOpen_cases h with ⟨-, h⟩ | ⟨-, rfl⟩
      · simp at h
      · rfl
  | close k =>
      simp only [act] at h
      split at h <;> simp at h
  | stat path | unlink path =>
      simp only [act] at h
      split at h <;> simp only [Option.some.injEq, Prod.mk.injEq, reduceCtorEq, false_and] at h
      exact h.2.symm
  | attempts timeout => simp [act] at h
  | _ => simp [act] at h

/-- What an operation raises without a fault is no interrupt. -/
theorem act_isException {e : Exc} (h : cfg.act choice p w o = some (.error e, w')) :
    e.isException = true := by
  cases o with
  | openFile path kind =>
      simp only [act] at h
      split at h
      · split at h <;>
          simp only [Option.some.injEq, Prod.mk.injEq, Except.error.injEq, reduceCtorEq,
            false_and] at h
        exact h.1 ▸ rfl
      · split at h <;>
          simp only [Option.ite_none_right_eq_some, Option.some.injEq, Prod.mk.injEq,
            Except.error.injEq, reduceCtorEq, false_and, and_false] at h
        exact h.1 ▸ rfl
  | flock k flags =>
      simp only [act] at h
      rcases onOpen_cases h with ⟨-, h⟩ | ⟨heq, -⟩
      · split at h
        · simp only [Option.some.injEq, Prod.mk.injEq, Except.error.injEq] at h
          exact h.1 ▸ rfl
        · split at h <;>
            simp only [Option.ite_none_right_eq_some, Option.some.injEq, Prod.mk.injEq,
              Except.error.injEq, reduceCtorEq, false_and] at h
          exact h.2.1 ▸ rfl
      · exact Except.error.inj heq ▸ rfl
  | unlock k | seek k | truncate k | flush k | fsync k | read k | fstat k | write k =>
      simp only [act] at h
      rcases onOpen_cases h with ⟨-, h⟩ | ⟨heq, -⟩
      · simp at h
      · exact Except.error.inj heq ▸ rfl
  | close k =>
      simp only [act] at h
      split at h <;> simp at h
  | stat path | unlink path =>
      simp only [act] at h
      split at h <;>
        simp only [Option.some.injEq, Prod.mk.injEq, Except.error.injEq, reduceCtorEq,
          false_and] at h
      exact h.1 ▸ rfl
  | attempts timeout => simp [act] at h
  | _ => simp [act] at h

/-- Every operation changes the world in one of the listed ways. -/
theorem performOp_change (h : cfg.performOp choice p c w o = some (r, w')) :
    Change cfg p w o w' := by
  rcases performOp_cases h with h | ⟨e, -, -, rfl⟩
  · exact act_change h
  · exact afterFault_change w o

/-- The environment closes a dropped file. -/
theorem finalize_cases {e : Finalize ι} (h : finalize e w = some w') :
    e.handle ∈ w.opened ∧ w.dropped e.handle = true ∧
      w' = (w.store e.handle (w.data e.handle.ino ++ w.buffer e.handle) []).discard e.handle := by
  simp only [finalize, Option.ite_none_right_eq_some, Option.some.injEq] at h
  exact ⟨h.1.1, h.1.2, h.2.symm⟩

end Config

/-! ## Well-formed worlds -/

namespace World

/-- What every run keeps: the file system is well formed, and an instance's
handle and every dropped one have been opened. -/
structure Wf (w : World ι) : Prop where
  fs : w.toFs.Wf
  fh_owner : ∀ {p h}, w.fh p = some h → h.owner = p
  fh_serial : ∀ {p h}, w.fh p = some h → h.serial < w.serial p
  fh_dropped : ∀ {p h}, w.fh p = some h → w.dropped h = false
  dropped_serial : ∀ {h}, w.dropped h = true → h.serial < w.serial h.owner

theorem empty_wf : (empty : World ι).Wf where
  fs := by constructor <;> simp [empty]
  fh_owner := by simp [empty]
  fh_serial := by simp [empty]
  fh_dropped := by simp [empty]
  dropped_serial := by simp [empty]

/-- The operations on files and attributes that a client may use: its own. -/
def Own (p : ι) (w : World ι) : Op ι → Prop
  | .setFh v => ∀ h, v = some h → h.owner = p ∧ h ∈ w.opened ∧ w.dropped h = false
  | .drop h => h.owner = p ∧ h.serial < w.serial p ∧ w.fh p ≠ some h
  | .openFile _ kind => kind ≠ .write
  | .flock h _ | .unlock h | .close h | .seek h | .flush h | .truncate h | .write h _ _ =>
      h.owner = p
  | _ => True

/-- Nothing about the handle has changed. -/
structure Untouched (h : Handle ι Path) (w w' : World ι) : Prop where
  file : Fs.Keeps h w.toFs w'.toFs
  dropped : w'.dropped h = w.dropped h
  confirmed : w'.confirmed h = w.confirmed h
  creator : h ∈ w.opened → w'.creator h.ino = w.creator h.ino

/-- Nothing that belongs to client `q` has changed: its attributes, and the
handles it has not dropped. -/
structure Undisturbed (q : ι) (w w' : World ι) : Prop where
  fh : w'.fh q = w.fh q
  inner : w'.inner q = w.inner q
  acquired : w'.acquired q = w.acquired q
  acquireCount : w'.acquireCount q = w.acquireCount q
  held : w'.held q = w.held q
  answer : w'.answer q = w.answer q
  serial : w'.serial q = w.serial q
  seen : ∀ r, w.seen q r = true → w'.seen q r = true
  handle : ∀ h, h.owner = q → w.dropped h = false → Untouched h w w'

section Frame

variable {w w' w'' : World ι} {p q : ι} {g h : Handle ι Path} {i : Nat} {path : Path}

theorem Untouched.refl (h : Handle ι Path) (w : World ι) : Untouched h w w :=
  ⟨.refl _ _, rfl, rfl, fun _ => rfl⟩

theorem Untouched.trans (h₁ : Untouched h w w') (h₂ : Untouched h w' w'') :
    Untouched h w w'' where
  file := h₁.file.trans h₂.file
  dropped := h₂.dropped.trans h₁.dropped
  confirmed := h₂.confirmed.trans h₁.confirmed
  creator := fun ho => (h₂.creator (h₁.file.mem.2 ho)).trans (h₁.creator ho)

theorem Undisturbed.refl (q : ι) (w : World ι) : Undisturbed q w w :=
  ⟨rfl, rfl, rfl, rfl, rfl, rfl, rfl, fun _ h => h, fun h _ _ => .refl h w⟩

theorem Undisturbed.trans (h₁ : Undisturbed q w w') (h₂ : Undisturbed q w' w'') :
    Undisturbed q w w'' where
  fh := h₂.fh.trans h₁.fh
  inner := h₂.inner.trans h₁.inner
  acquired := h₂.acquired.trans h₁.acquired
  acquireCount := h₂.acquireCount.trans h₁.acquireCount
  held := h₂.held.trans h₁.held
  answer := h₂.answer.trans h₁.answer
  serial := h₂.serial.trans h₁.serial
  seen := fun r hr => h₂.seen r (h₁.seen r hr)
  handle := by
    intro h ho hd
    have hfirst := h₁.handle h ho hd
    exact hfirst.trans (h₂.handle h ho (hfirst.dropped.trans hd))

/-- Closing a handle touches no other. -/
theorem untouched_close (hne : h ≠ g) (content : List UInt8) :
    Untouched h w ((w.store g content []).discard g) where
  file := (Fs.Keeps.store hne _ _).trans (Fs.Keeps.discard hne)
  dropped := rfl
  confirmed := by simp [Function.update_of_ne hne]
  creator := fun _ => rfl

/-- An operation on its own files leaves the handles of other clients alone. -/
theorem untouched_of_change {cfg : Config ι} {o : Op ι} (hw : w.Wf) (hown : Own p w o)
    (hc : Change cfg p w o w') (hne : h.owner ≠ p) : Untouched h w w' := by
  have hother : ∀ {g : Handle ι Path}, g.owner = p → h ≠ g := fun ho heq => hne (heq ▸ ho)
  cases hc with
  | same | setFh | setInnerLock | setAcquiredLock | setAcquireCount | acquired | readPidCalled
    | readPidReturns => exact ⟨.refl _ _, rfl, rfl, fun _ => rfl⟩
  | discardLock =>
      refine ⟨.refl _ _, ?_, rfl, fun _ => rfl⟩
      have : w.fh p ≠ some h := fun heq => hne (hw.fh_owner heq)
      simp [this]
  | drop g =>
      refine ⟨.refl _ _, ?_, rfl, fun _ => rfl⟩
      simp [Function.update_of_ne (hother hown.1)]
  | openAt path kind i hn => exact ⟨.openAt hne, rfl, rfl, fun _ => rfl⟩
  | openEmptied path i hn => exact absurd rfl hown
  | create path kind i hn hi hkind =>
      refine ⟨(Fs.Keeps.create hi).trans (.openAt hne), rfl, rfl, fun ho => ?_⟩
      simp [Function.update_of_ne (hi.2 h ho)]
  | lock g flags mode hm ho hc =>
      exact ⟨.setLock (hother hown) _, rfl, rfl, fun _ => rfl⟩
  | unlock g ho =>
      refine ⟨.setLock (hother hown) _, rfl, ?_, fun _ => rfl⟩
      simp [Function.update_of_ne (hother hown)]
  | close g ho content hcontent => exact untouched_close (hother hown) content
  | seek g ho | flush g ho => exact ⟨.store (hother hown) _ _, rfl, rfl, fun _ => rfl⟩
  | truncate g ho | write g bytes bufferSize n ho hn =>
      exact ⟨.store (hother hown) _ _, rfl, rfl, fun _ => rfl⟩
  | compare path i hn =>
      refine ⟨.refl _ _, rfl, ?_, fun _ => rfl⟩
      have : ¬ w.Matches p path i h := fun hm => hne (hw.fh_owner hm.1)
      simp [this]
  | unlink path i hn =>
      refine ⟨.unlink, rfl, ?_, fun _ => rfl⟩
      simp [hne]

/-- An operation on its own files leaves the other clients undisturbed. -/
theorem undisturbed_of_change {cfg : Config ι} {o : Op ι} (hw : w.Wf) (hown : Own p w o)
    (hc : Change cfg p w o w') (hne : q ≠ p) : Undisturbed q w w' := by
  have hhandle : ∀ h : Handle ι Path, h.owner = q → w.dropped h = false → Untouched h w w' :=
    fun h ho _ => untouched_of_change hw hown hc (by rw [ho]; exact hne)
  cases hc with
  | compare path i hn =>
      refine ⟨rfl, rfl, rfl, rfl, rfl, rfl, rfl, fun r hr => ?_, hhandle⟩
      simp [hr]
  | unlink path i hn =>
      refine ⟨rfl, rfl, rfl, rfl, ?_, rfl, rfl, fun _ hr => hr, hhandle⟩
      simp only [unlink_held]
      split
      · exact Function.update_of_ne hne _ _
      · rfl
  | setInnerLock b =>
      refine ⟨rfl, Function.update_of_ne hne _ _, rfl, rfl, ?_, rfl, rfl, fun _ hr => hr, hhandle⟩
      simp only [setInner_held]
      split
      · rfl
      · exact Function.update_of_ne hne _ _
  | _ =>
      constructor
      all_goals first
        | rfl
        | exact Function.update_of_ne hne _ _
        | exact fun _ hr => hr
        | exact hhandle
        | (intro r hr; simpa [Function.update_of_ne hne] using hr)

theorem undisturbed_of_finalize {e : Finalize ι} (he : Config.finalize e w = some w') (q : ι) :
    Undisturbed q w w' := by
  obtain ⟨-, hd, rfl⟩ := Config.finalize_cases he
  refine ⟨rfl, rfl, rfl, rfl, rfl, rfl, rfl, fun _ hr => hr, fun h _ hkeep => ?_⟩
  refine untouched_close (fun heq => ?_) _
  rw [← heq, hkeep] at hd
  cases hd

/-! ### Well-formed worlds stay so -/

theorem Wf.close (hw : w.Wf) (ho : h ∈ w.opened) (content : List UInt8) :
    ((w.store h content []).discard h).Wf where
  fs := (hw.fs.store ho content []).discard (by simp)
  fh_owner := hw.fh_owner
  fh_serial := hw.fh_serial
  fh_dropped := hw.fh_dropped
  dropped_serial := hw.dropped_serial

theorem Wf.opened (hw : w.Wf) (hfs : (w.toFs.openAt p path i).Wf) : (w.openAt p path i).Wf where
  fs := hfs
  fh_owner := hw.fh_owner
  fh_serial := by
    intro q h hq
    have hlt := hw.fh_serial hq
    by_cases hqp : q = p
    · subst hqp
      simp only [openAt_toFs, Fs.openAt_serial, Function.update_self]
      omega
    · simpa [Function.update_of_ne hqp] using hlt
  fh_dropped := hw.fh_dropped
  dropped_serial := by
    intro h hd
    have hlt := hw.dropped_serial hd
    by_cases hqp : h.owner = p
    · simp only [openAt_toFs, Fs.openAt_serial, hqp, Function.update_self]
      rw [hqp] at hlt
      omega
    · simpa [Function.update_of_ne hqp] using hlt

theorem Wf.change {cfg : Config ι} {o : Op ι} (hw : w.Wf) (hown : Own p w o)
    (hc : Change cfg p w o w') : w'.Wf := by
  cases hc with
  | same | setInnerLock | setAcquiredLock | setAcquireCount | acquired | readPidCalled
    | readPidReturns =>
      exact ⟨hw.fs, hw.fh_owner, hw.fh_serial, hw.fh_dropped, hw.dropped_serial⟩
  | compare path i hn =>
      exact ⟨hw.fs, hw.fh_owner, hw.fh_serial, hw.fh_dropped, hw.dropped_serial⟩
  | setFh v =>
      have hset : ∀ {q h}, (w.setFh p v).fh q = some h →
          w.fh q = some h ∨ q = p ∧ h.owner = p ∧ h ∈ w.opened ∧ w.dropped h = false := by
        intro q h hq
        by_cases hqp : q = p
        · subst hqp
          exact Or.inr ⟨rfl, hown h (by simpa using hq)⟩
        · exact Or.inl (by simpa [Function.update_of_ne hqp] using hq)
      refine ⟨hw.fs, ?_, ?_, ?_, hw.dropped_serial⟩
      · intro q h hq
        rcases hset hq with h' | ⟨rfl, ho, -⟩
        · exact hw.fh_owner h'
        · exact ho
      · intro q h hq
        rcases hset hq with h' | ⟨rfl, ho, hmem, -⟩
        · exact hw.fh_serial h'
        · exact ho ▸ hw.fs.serial_lt hmem
      · intro q h hq
        rcases hset hq with h' | ⟨-, -, -, hd⟩
        · exact hw.fh_dropped h'
        · exact hd
  | discardLock =>
      have hkept : ∀ {q h}, (w.discardLock p).fh q = some h → q ≠ p ∧ w.fh q = some h := by
        intro q h hq
        by_cases hqp : q = p
        · subst hqp
          simp at hq
        · exact ⟨hqp, by simpa [Function.update_of_ne hqp] using hq⟩
      refine ⟨hw.fs, fun hq => hw.fh_owner (hkept hq).2, fun hq => hw.fh_serial (hkept hq).2,
        ?_, ?_⟩
      · intro q h hq
        obtain ⟨hqp, hq⟩ := hkept hq
        have : w.fh p ≠ some h := fun heq => hqp ((hw.fh_owner hq).symm.trans (hw.fh_owner heq))
        simp [hw.fh_dropped hq, this]
      · intro h hd
        simp only [discardLock_dropped, Bool.or_eq_true, decide_eq_true_eq] at hd
        rcases hd with hd | hd
        · exact hw.dropped_serial hd
        · have hlt := hw.fh_serial hd
          rw [← hw.fh_owner hd] at hlt
          exact hlt
  | drop g =>
      obtain ⟨ho, hserial, hcur⟩ := hown
      refine ⟨hw.fs, hw.fh_owner, hw.fh_serial, ?_, ?_⟩
      · intro q h hq
        have hne : h ≠ g := by
          rintro rfl
          exact hcur (by rw [← ho, hw.fh_owner hq]; exact hq)
        simpa [Function.update_of_ne hne] using hw.fh_dropped hq
      · intro h hd
        by_cases hne : h = g
        · rw [hne, ho]
          exact hserial
        · exact hw.dropped_serial (by simpa [Function.update_of_ne hne] using hd)
  | openAt path kind i hn => exact hw.opened (hw.fs.openAt hn)
  | openEmptied path i hn => exact absurd rfl hown
  | create path kind i hn hi hkind =>
      have hcreated : (w.create path i
          (if (cfg.object p).pidPath = some path then some p else none)).Wf :=
        ⟨hw.fs.create hn hi, hw.fh_owner, hw.fh_serial, hw.fh_dropped, hw.dropped_serial⟩
      exact hcreated.opened (hcreated.fs.openAt (by simp))
  | lock g flags mode hm ho hc =>
      exact ⟨hw.fs.setLock_some ho hc, hw.fh_owner, hw.fh_serial, hw.fh_dropped,
        hw.dropped_serial⟩
  | unlock g ho =>
      exact ⟨hw.fs.setLock_none, hw.fh_owner, hw.fh_serial, hw.fh_dropped, hw.dropped_serial⟩
  | close g ho content hcontent => exact hw.close ho content
  | seek g ho | flush g ho | truncate g ho | write g bytes bufferSize n ho hn =>
      exact ⟨hw.fs.store ho _ _, hw.fh_owner, hw.fh_serial, hw.fh_dropped, hw.dropped_serial⟩
  | unlink path i hn =>
      exact ⟨hw.fs.unlink, hw.fh_owner, hw.fh_serial, hw.fh_dropped, hw.dropped_serial⟩

theorem Wf.finalize {e : Finalize ι} (hw : w.Wf) (he : Config.finalize e w = some w') :
    w'.Wf := by
  obtain ⟨ho, -, rfl⟩ := Config.finalize_cases he
  exact hw.close ho _

end Frame

end World

end Portalocker
