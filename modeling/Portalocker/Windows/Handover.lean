import Portalocker.Windows.PidFileLock
set_option autoImplicit false
set_option linter.unusedSectionVars false

/-!
# Handing the PID file over on Windows

Processes that use `PidFileLock` on one path, with any interleaving of the steps of their
calls.  A release lets go of the sidecar before it unlinks the PID file, so another process
can acquire and publish its pid in between; while that process has the PID file open the
unlink fails, and once it has closed it the unlink removes a PID file that is not the
releaser's own.
-/

namespace Portalocker.Nt

open Posix Interleaving Interleaving.Machine World Contract

variable {ι : Type} [DecidableEq ι]

/-! ## The system -/

/-- Processes that use `PidFileLock` on one path. -/
structure Processes (ι : Type) where
  filename : Path
  lock : ι → PidFileLock
  mayRaise : Call → Op ι → Exc → Bool
  filename_lock : ∀ p, (lock p).filename = filename

/-- The instances of the processes, and what may fail. -/
def Processes.config (P : Processes ι) : Config ι where
  object := fun p => .pidFileLock (P.lock p)
  mayRaise := P.mayRaise

/-- The sidecar of all of them. -/
def Processes.lockfile (P : Processes ι) : Path := P.filename ++ ".lock".toList

/-- What is written down of a run: who has written the PID file that is there, and which
processes have begun a release and not yet tried to unlink the PID file in it. -/
structure Handover (ι : Type) where
  publisher : Option ι
  leaving : ι → Bool

/-- Nobody has written the PID file that is there. -/
def Handover.empty : Handover ι := ⟨none, fun _ => false⟩

/-- What an operation of client `p` does to the record. -/
def Processes.note (P : Processes ι) (p : ι) (c : Call) (log : Handover ι) :
    (o : Op ι) → Except Exc (Val o) → Handover ι
  | .write h _ _, r =>
      if h.path = P.filename ∧ r.isOk = true then { log with publisher := some p } else log
  | .setInnerLock false, _ =>
      if c.acquires then log else { log with leaving := Function.update log.leaving p true }
  | .unlink path, r =>
      if path = P.filename then
        ⟨if r.isOk then none else log.publisher, Function.update log.leaving p false⟩
      else log
  | _, _ => log

/-- The recorder of handovers. -/
abbrev Processes.handovers (P : Processes ι) : Recorder (machine P.config) where
  Log := Handover ι
  record := fun p c _ o r _ log => P.note p c log o r

/-- The machine with the record of handovers. -/
abbrev Processes.observed (P : Processes ι) : Machine ι := (machine P.config).recorded P.handovers

/-- No process has done anything. -/
def Processes.Start (_ : Processes ι) (W : World ι × Handover ι) : Prop :=
  Pristine W.1 ∧ W.2 = .empty

/-- A process closes the PID file it has written only while no other has begun a release
and not yet tried to unlink the PID file. -/
def Processes.closesApart (P : Processes ι) : Guard P.observed where
  call := fun _ _ _ => True
  op := fun p _ o W => ∀ h, o = .close h → h.path = P.filename → W.2.publisher = some p →
    ∀ q, q ≠ p → W.2.leaving q = false

/-- The transition removes no PID file that another process has written. -/
def Processes.Spares (P : Processes ι) (s : P.observed.State) (l : P.observed.Label)
    (s' : P.observed.State) : Prop :=
  s.world.1.names P.filename ≠ none → s'.world.1.names P.filename = none →
    ∀ q, s.world.2.publisher = some q → ∃ choice, l = .op q choice

/-! ## The contract -/

/-- What every run keeps: open files keep their names, the handles that are stored are
handles of the sidecar, and no open handle of the PID file is forgotten. -/
structure Processes.Coherent (P : Processes ι) (w : World ι) : Prop where
  wf : w.Wf
  pinned : Pinned w
  stored : ∀ {p h}, w.fh p = some h → h.path = P.lockfile
  kept : ∀ {h}, h ∈ w.opened → h.path = P.filename → w.dropped h = false

/-- The client's stored handle holds the lock of the sidecar. -/
def HoldsSidecar (p : ι) (w : World ι) : Prop :=
  ∃ h, w.fh p = some h ∧ LockIs p h (some .exclusive) w

/-- While the client is leaving, the PID file is its own or is open at the one that has
written it. -/
def Processes.Harmless (P : Processes ι) (p : ι) (W : World ι × Handover ι) : Prop :=
  W.2.leaving p = true → ∀ q, W.2.publisher = some q →
    q = p ∨ ∃ h ∈ W.1.opened, h.owner = q ∧ h.path = P.filename

/-- The permission of an operation, beyond using only one's own files. -/
def Processes.Permits (P : Processes ι) (p : ι) (W : World ι × Handover ι) : Op ι → Prop
  | .write h _ _ => h.path = P.filename → HoldsSidecar p W.1
  | .drop h => h.path = P.filename → h ∉ W.1.opened
  | .setFh v => ∀ h, v = some h → h.path = P.lockfile
  | .unlink path => path = P.filename → W.2.leaving p = true ∧ P.Harmless p W
  | _ => True

/-- What the others leave alone while client `p` waits. -/
structure Processes.Rely (P : Processes ι) (p : ι) (W W' : World ι × Handover ι) : Prop where
  undisturbed : Undisturbed p W.1 W'.1
  leaving : W'.2.leaving p = W.2.leaving p
  publisher : HoldsSidecar p W.1 → W.2.publisher = some p → W'.2.publisher = some p
  harmless : P.Harmless p W → P.Harmless p W'

/-- The client is between two calls: if it has the sidecar the PID file is its own. -/
def Idle (p : ι) (W : World ι × Handover ι) : Prop :=
  (W.1.inner p = true → HoldsSidecar p W.1 ∧ W.2.publisher = some p) ∧ W.2.leaving p = false

section Contract

variable {P : Processes ι} {p q : ι} {c : Call} {w w' : World ι} {log : Handover ι} {o : Op ι}
  {r : Except Exc (Val o)} {h : Handle ι Path}

theorem HoldsSidecar.keep (hs : HoldsSidecar p w) (hu : Undisturbed p w w') :
    HoldsSidecar p w' := by
  obtain ⟨h, hfh, hlock⟩ := hs
  exact ⟨h, hu.fh.trans hfh, hlock.keep hu⟩

/-- The sidecar has one holder. -/
theorem HoldsSidecar.unique (hw : P.Coherent w) (hp : HoldsSidecar p w) (hq : HoldsSidecar q w) :
    p = q := by
  obtain ⟨g, hg, -, -, hlockg⟩ := hp
  obtain ⟨h, hh, -, -, hlockh⟩ := hq
  have hpath : g.path = h.path := (hw.stored hg).trans (hw.stored hh).symm
  have hsame : g = h := hw.pinned.exclusive hw.wf hpath hlockh (by rw [hlockg]; simp)
  rw [← hw.wf.fh_owner hg, hsame, hw.wf.fh_owner hh]

/-- The PID file is not the sidecar. -/
theorem Processes.lockfile_ne (P : Processes ι) : P.lockfile ≠ P.filename := by
  intro heq
  have hlength := congrArg List.length heq
  simp [lockfile] at hlength

theorem Rely.refl (P : Processes ι) (p : ι) (W : World ι × Handover ι) : P.Rely p W W :=
  ⟨.refl p W.1, rfl, fun _ h => h, fun h => h⟩

theorem Rely.trans {W₁ W₂ W₃ : World ι × Handover ι} (h₁ : P.Rely p W₁ W₂)
    (h₂ : P.Rely p W₂ W₃) : P.Rely p W₁ W₃ where
  undisturbed := h₁.undisturbed.trans h₂.undisturbed
  leaving := h₂.leaving.trans h₁.leaving
  publisher := fun hs hpub => h₂.publisher (hs.keep h₁.undisturbed) (h₁.publisher hs hpub)
  harmless := fun hs => h₂.harmless (h₁.harmless hs)

/-! ### The invariant -/

/-- Only an operation on the PID file or on the inner lock is recorded. -/
theorem Processes.note_leaving_of_ne (hq : q ≠ p) :
    (P.note p c log o r).leaving q = log.leaving q := by
  cases o with
  | write h bytes bufferSize =>
      simp only [note]
      split <;> rfl
  | setInnerLock b =>
      cases b with
      | true => rfl
      | false =>
          simp only [note]
          split
          · rfl
          · exact Function.update_of_ne hq _ _
  | unlink path =>
      simp only [note]
      split
      · exact Function.update_of_ne hq _ _
      · rfl
  | _ => rfl

/-- The record names a new publisher only when a client writes the PID file. -/
theorem Processes.note_publisher (hpub : (P.note p c log o r).publisher = some q) :
    log.publisher = some q ∨
      q = p ∧ ∃ h bytes bufferSize, o = .write h bytes bufferSize ∧ h.path = P.filename ∧
        r.isOk = true := by
  cases o with
  | write h bytes bufferSize =>
      simp only [note] at hpub
      split at hpub
      · rename_i hwrite
        exact Or.inr ⟨(Option.some.inj hpub).symm, h, bytes, bufferSize, rfl, hwrite⟩
      · exact Or.inl hpub
  | setInnerLock b =>
      cases b with
      | true => exact Or.inl hpub
      | false =>
          simp only [note] at hpub
          split at hpub <;> exact Or.inl hpub
  | unlink path =>
      simp only [note] at hpub
      split at hpub
      · dsimp only at hpub
        split at hpub
        · cases hpub
        · exact Or.inl hpub
      · exact Or.inl hpub
  | _ => exact Or.inl hpub

/-- Only closing it makes an open handle go. -/
theorem opened_of_change {cfg : Config ι} (hc : Change cfg p w o w') (hopen : h ∈ w.opened) :
    h ∈ w'.opened ∨ o = .close h := by
  cases hc with
  | openAt path kind i hn => exact Or.inl (List.mem_cons_of_mem _ hopen)
  | openEmptied path i hn => exact Or.inl (List.mem_cons_of_mem _ hopen)
  | create path kind i hn hi hkind => exact Or.inl (List.mem_cons_of_mem _ hopen)
  | close g ho content hcontent =>
      by_cases hg : h = g
      · exact Or.inr (by rw [hg])
      · exact Or.inl (by simpa using ⟨hopen, hg⟩)
  | _ => exact Or.inl hopen

/-- A handle that is open afterwards was open before, or is a new one. -/
theorem opened_before {cfg : Config ι} (hw : w.Wf) (hc : Change cfg p w o w')
    (hopen : h ∈ w'.opened) : h ∈ w.opened ∨ w.dropped h = false ∧ w'.dropped = w.dropped := by
  have hnew : ∀ {path : Path} {i : Nat}, w.dropped (w.handle p path i) = false := fun {path i} =>
    Bool.eq_false_iff.2 fun hd => absurd (hw.dropped_serial hd) (by simp)
  cases hc with
  | openAt path kind i hn | openEmptied path i hn | create path kind i hn hi hkind =>
      rcases List.mem_cons.1 hopen with rfl | hopen
      · exact Or.inr ⟨hnew, rfl⟩
      · exact Or.inl hopen
  | close g ho content hcontent => exact Or.inl (List.mem_filter.1 hopen).1
  | _ => exact Or.inl hopen

/-- Only dropping it makes an operation mark a handle, or forgetting the lock object that
stores it. -/
theorem dropped_of_change {cfg : Config ι} (hc : Change cfg p w o w')
    (hd : w.dropped h = false) (hd' : w'.dropped h = true) :
    o = .drop h ∨ w.fh p = some h := by
  cases hc with
  | drop g =>
      by_cases hg : h = g
      · exact Or.inl (by rw [hg])
      · rw [drop_dropped, Function.update_of_ne hg, hd] at hd'
        cases hd'
  | discardLock =>
      rw [discardLock_dropped, hd, Bool.false_or, decide_eq_true_eq] at hd'
      exact Or.inr hd'
  | _ =>
      have hcontra : w.dropped h = true := hd'
      rw [hd] at hcontra
      cases hcontra

theorem stored_of_change {cfg : Config ι} (hc : Change cfg p w o w') (hfh : w'.fh q = some h) :
    w.fh q = some h ∨ o = .setFh (some h) := by
  cases hc with
  | setFh v =>
      by_cases hq : q = p
      · rw [hq, setFh_fh, Function.update_self] at hfh
        exact Or.inr (by rw [hfh])
      · exact Or.inl (by simpa [Function.update_of_ne hq] using hfh)
  | discardLock =>
      by_cases hq : q = p
      · rw [hq, discardLock_fh, Function.update_self] at hfh
        cases hfh
      · exact Or.inl (by simpa [Function.update_of_ne hq] using hfh)
  | _ => exact Or.inl hfh

/-- Permitted operations keep the invariant. -/
theorem Processes.Coherent.performOp (hw : P.Coherent w) (hown : Own p w o)
    (hpermits : P.Permits p (w, log) o) {choice : Choice}
    (h : performOp P.config choice p c w o = some (r, w')) : P.Coherent w' := by
  have hc := performOp_change h
  refine ⟨hw.wf.change hown hc, hw.pinned.performOp h, fun {q k} hfh => ?_,
    fun {k} hopen hpath => ?_⟩
  · rcases stored_of_change hc hfh with hbefore | rfl
    · exact hw.stored hbefore
    · exact hpermits k rfl
  · rcases opened_before hw.wf hc hopen with hbefore | ⟨hd, hsame⟩
    · have hd := hw.kept hbefore hpath
      refine Bool.eq_false_iff.2 fun hd' => ?_
      rcases dropped_of_change hc hd hd' with rfl | hfh
      · exact hpermits hpath hbefore
      · exact P.lockfile_ne ((hw.stored hfh).symm.trans hpath)
    · rw [hsame]
      exact hd

theorem Processes.Coherent.finalize (hw : P.Coherent w) {e : Finalize ι}
    (he : Config.finalize e w = some w') : P.Coherent w' := by
  have hwf := hw.wf.finalize he
  have hpin := hw.pinned.finalize he
  obtain ⟨-, -, rfl⟩ := Config.finalize_cases he
  exact ⟨hwf, hpin, hw.stored, fun hopen => hw.kept (List.mem_filter.1 hopen).1⟩

/-! ### What the others may count on -/

/-- An unlink of the PID file that succeeds removes the client's own. -/
theorem own_pid_of_unlink (hw : P.Coherent w) (hharmless : P.Harmless p (w, log))
    (hleaving : log.leaving p = true) (hunused : ¬ InUse w P.filename)
    (hpub : log.publisher = some q) : q = p := by
  rcases hharmless hleaving q hpub with heq | ⟨h, hopen, -, hpath⟩
  · exact heq
  · exact absurd (hpath ▸ hw.pinned.inUse hopen) hunused

/-- The pid a holder has published stays. -/
theorem publisher_stays (hw : P.Coherent w) (hpermits : P.Permits p (w, log) o) {choice : Choice}
    (h : performOp P.config choice p c w o = some (r, w')) (hq : q ≠ p) (hs : HoldsSidecar q w)
    (hpub : log.publisher = some q) : (P.note p c log o r).publisher = some q := by
  cases o with
  | write k bytes bufferSize =>
      simp only [Processes.note]
      split
      · rename_i hwrite
        exact absurd (HoldsSidecar.unique hw hs (hpermits hwrite.1)) hq
      · exact hpub
  | setInnerLock b =>
      cases b with
      | true => exact hpub
      | false =>
          simp only [Processes.note]
          split <;> exact hpub
  | unlink path =>
      simp only [Processes.note]
      split
      · rename_i hpath
        subst hpath
        cases hok : r.isOk with
        | false => simpa using hpub
        | true =>
            obtain ⟨hleaving, hharmless⟩ := hpermits rfl
            rcases performOp_cases h with hact | ⟨e, -, rfl, -⟩
            · rcases act_cases hact with ⟨-, hunused⟩ | ⟨-, -, -, rfl, -⟩
              · exact absurd (own_pid_of_unlink hw hharmless hleaving (hunused _ rfl) hpub) hq
              · cases hok
            · cases hok
      · exact hpub
  | _ => exact hpub

/-- A leaving client stays harmless while others write the PID file, and while they close
it only when nobody is leaving. -/
theorem harmless_stays (hown : Own p w o) (hg : P.closesApart.op p c o (w, log))
    {choice : Choice} (h : performOp P.config choice p c w o = some (r, w')) (hq : q ≠ p)
    (hharmless : P.Harmless q (w, log)) : P.Harmless q (w', P.note p c log o r) := by
  intro hleaving u hpub
  have hleaving' : log.leaving q = true := by
    rw [← hleaving]
    exact (Processes.note_leaving_of_ne hq).symm
  have hc := performOp_change h
  rcases Processes.note_publisher hpub with hbefore | ⟨rfl, k, bytes, bufferSize, rfl, hpath, hok⟩
  · rcases hharmless hleaving' u hbefore with heq | ⟨k, hopen, howner, hpath⟩
    · exact Or.inl heq
    · rcases opened_of_change hc hopen with hafter | rfl
      · exact Or.inr ⟨k, hafter, howner, hpath⟩
      · -- the publisher closes the PID file
        have hu : u = p := howner.symm.trans hown
        have hstayed := hg k rfl hpath (hu ▸ hbefore) q hq
        rw [hleaving'] at hstayed
        cases hstayed
  · have hopen : k ∈ w.opened := by
      rcases performOp_cases h with hact | ⟨e, -, rfl, -⟩
      · rcases act_cases hact with ⟨hact, -⟩ | ⟨path, heq, -⟩
        · simp only [Config.act] at hact
          rcases Config.onOpen_cases hact with ⟨hopen, -⟩ | ⟨rfl, -⟩
          · exact hopen
          · cases hok
        · cases heq
      · cases hok
    rcases opened_of_change hc hopen with hafter | heq
    · exact Or.inr ⟨k, hafter, hown, hpath⟩
    · cases heq

end Contract

/-- What the processes owe each other. -/
def Processes.discipline (P : Processes ι) : Discipline P.observed P.closesApart where
  inv W := P.Coherent W.1
  rely := P.Rely
  pre p _ W o := Own p W.1 o ∧ P.Permits p W o
  idle := Idle
  rely_refl := Rely.refl P
  rely_trans := Rely.trans
  inv_perform := by
    rintro p c o choice ⟨w, log⟩ r ⟨w', log'⟩ hw ⟨hown, hpermits⟩ - h
    exact hw.performOp hown hpermits (perform_recorded h).1
  rely_perform := by
    rintro p c o choice ⟨w, log⟩ r ⟨w', log'⟩ hw ⟨hown, hpermits⟩ hg h q hq
    obtain ⟨hperform, hlog⟩ := perform_recorded h
    obtain rfl : log' = P.note p c log o r := hlog
    have hperform' : performOp P.config choice p c w o = some (r, w') := hperform
    exact ⟨undisturbed_of_change hw.wf hown (performOp_change hperform') hq,
      Processes.note_leaving_of_ne hq,
      fun hs hpub => publisher_stays hw hpermits hperform' hq hs hpub,
      harmless_stays hown hg hperform' hq⟩
  inv_event := by
    rintro e ⟨w, log⟩ ⟨w', log'⟩ hw he
    obtain ⟨w₁, hevent, heq⟩ := Option.map_eq_some_iff.1 he
    obtain ⟨rfl, rfl⟩ := Prod.mk.inj heq
    exact hw.finalize hevent
  rely_event := by
    rintro e ⟨w, log⟩ ⟨w', log'⟩ hw he q
    obtain ⟨w₁, hevent, heq⟩ := Option.map_eq_some_iff.1 he
    obtain ⟨rfl, rfl⟩ := Prod.mk.inj heq
    have hevent' : Config.finalize e w = some w₁ := hevent
    refine ⟨undisturbed_of_finalize hevent' q, rfl, fun _ h => h, ?_⟩
    intro hharmless hleaving u hpub
    obtain ⟨-, hd, rfl⟩ := Config.finalize_cases hevent'
    -- a handle of the PID file is never dropped while it is open
    refine (hharmless hleaving u hpub).imp_right ?_
    rintro ⟨k, hopen, howner, hpath⟩
    have hne : k ≠ e.handle := fun heq => by
      rw [← heq, hw.kept hopen hpath] at hd
      cases hd
    exact ⟨k, by simpa using ⟨hopen, hne⟩, howner, hpath⟩
  idle_stable := by
    rintro p W W' - - hr ⟨hinner, hleaving⟩
    refine ⟨fun hi => ?_, hr.leaving.trans hleaving⟩
    obtain ⟨hs, hpub⟩ := hinner (hr.undisturbed.inner ▸ hi)
    exact ⟨hs.keep hr.undisturbed, hr.publisher hs hpub⟩

end Portalocker.Nt
