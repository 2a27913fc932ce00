import Portalocker.Utils.Exclusion
set_option autoImplicit false
set_option linter.unusedSectionVars false

/-!
# Temporary lock files leave nothing behind

`TemporaryFileLock` instances with the default flags keep a contract of their
own: as long as the path exists, one of them has its inode open.  An instance
that gives up a handle therefore owes the others that the handle is dispensable:
its file has lost its name, or somebody else is locked on the same inode, and
will find that out when it releases.  A refused instance knows the second of the
one that refused it, and a stale one the first of itself.
-/

namespace Portalocker

open Posix Interleaving Interleaving.Machine World Contract

variable {ι : Type} [DecidableEq ι]

/-! ## The contract -/

/-- Another handle on the same file is locked. -/
def Blocked (h : Handle ι Path) (w : World ι) : Prop :=
  ∃ k, k ≠ h ∧ k.path = h.path ∧ k.ino = h.ino ∧ w.lock k ≠ none

/-- If the handle is closed, somebody else will still remove its file. -/
def Dispensable (h : Handle ι Path) (w : World ι) : Prop := w.Stale h ∨ Blocked h w

/-- The file at the path is open, and no file object is dropped before it is closed. -/
structure Tended (path : Path) (w : World ι) : Prop where
  names : ∀ {i}, w.names path = some i → ∃ h ∈ w.opened, h.path = path ∧ h.ino = i
  dropped : ∀ {h}, w.dropped h = true → h ∉ w.opened

/-- What an instance owes for giving up a lock, a handle or a file object. -/
def tendedPre (w : World ι) : Op ι → Prop
  | .unlock h => h ∈ w.opened → w.Stale h
  | .close h => h ∈ w.opened → Dispensable h w ∧ (w.lock h = none ∨ w.Stale h)
  | .drop h => h ∉ w.opened
  | .discardLock => False
  | _ => True

/-- The same files of client `p` are open, the stale ones are still stale and the
dispensable ones still dispensable. -/
def TendedFor (p : ι) (w w' : World ι) : Prop :=
  ∀ h, h.owner = p → (h ∈ w'.opened ↔ h ∈ w.opened) ∧
    (h ∈ w.opened → (w.Stale h → w'.Stale h) ∧ (Dispensable h w → Dispensable h w'))

/-- Client `p` stores `current` and has `file` open, a file at `path`. -/
def Has (p : ι) (path : Path) (current file : Option (Handle ι Path)) (w : World ι) : Prop :=
  w.fh p = current ∧ (∀ h, file = some h → h.owner = p ∧ h.path = path) ∧
    ∀ h, h.owner = p → (h ∈ w.opened ↔ file = some h)

/-- Between calls an instance has no file open, or holds the lock through the one it
has. -/
def Unoccupied (p : ι) (path : Path) (w : World ι) : Prop :=
  Has p path none none w ∨ ∃ h, Has p path (some h) (some h) w ∧ w.held p = true

section Steps

variable {cfg : Config ι} {path : Path} {w w' : World ι} {p q : ι} {g h : Handle ι Path} {o : Op ι}

/-- An open handle is stale when its path does not name its inode. -/
theorem stale_of_names (hw : w.Wf) (hopen : h ∈ w.opened) (hn : w.names h.path ≠ some h.ino) :
    w.Stale h := by
  rcases hw.fs.opened_link hopen with hlink | hlink
  · exact absurd (hw.fs.names_links.2 hlink) hn
  · exact hlink

/-- A conflict means that the handle is stale or that its file is locked by another. -/
theorem dispensable_of_conflicts {mode : LockMode} (hw : w.Wf) (hopen : h ∈ w.opened)
    (hc : w.Conflicts h mode) : Dispensable h w := by
  obtain ⟨k, hk, hne, hino, m, hm, -⟩ := hc
  rcases hw.fs.opened_link hopen with hlink | hlink
  · -- both handles are open on an inode with one name
    refine Or.inr ⟨k, hne, ?_, hino, by rw [Option.mem_def.1 hm]; simp⟩
    rcases hw.fs.opened_link hk with hk' | hk' <;> rw [hino, hlink] at hk'
    · exact (Option.some.inj hk').symm
    · cases hk'
  · exact Or.inl hlink

/-- Closing a dispensable handle leaves the file at the path open. -/
theorem Tended.close (hw : w.Wf) (ht : Tended path w) (hspare : Dispensable g w)
    (content : List UInt8) : Tended path ((w.store g content []).discard g) := by
  refine ⟨fun {i} hn => ?_, fun hd hmem => ht.dropped hd (List.mem_filter.1 hmem).1⟩
  have hkept : ∀ k ∈ w.opened, k ≠ g → k ∈ ((w.store g content []).discard g).opened :=
    fun k hk hne => by simpa using ⟨hk, hne⟩
  obtain ⟨k, hk, hpath, hino⟩ := ht.names hn
  by_cases hkg : k = g
  · subst hkg
    rcases hspare with hstale | ⟨l, hne, hpath', hino', hl⟩
    · have hlink : w.links i = some path := hw.fs.names_links.1 hn
      rw [← hino, hstale] at hlink
      cases hlink
    · obtain ⟨m, hm⟩ := Option.ne_none_iff_exists'.1 hl
      exact ⟨l, hkept l (hw.fs.opened_of_lock hm) hne, hpath'.trans hpath, hino'.trans hino⟩
  · exact ⟨k, hkept k hk hkg, hpath, hino⟩

/-- A permitted operation leaves the file at the path open. -/
theorem Tended.change (hw : w.Wf) (ht : Tended path w) (hown : Own p w o) (hpre : tendedPre w o)
    (hc : Change cfg p w o w') : Tended path w' := by
  -- a new handle has never been dropped
  have hnew : ∀ {w₁ : World ι} {path' i}, w₁.serial = w.serial → w₁.opened = w.opened →
      ∀ {k}, w.dropped k = true → k ∉ (w₁.openAt p path' i).opened := by
    intro w₁ path' i hserial hopened k hd hmem
    simp only [openAt_toFs, Fs.openAt_opened, List.mem_cons, hopened] at hmem
    rcases hmem with rfl | hmem
    · have := hw.dropped_serial hd
      simp [hserial] at this
    · exact ht.dropped hd hmem
  cases hc with
  | same | setFh | setInnerLock | setAcquiredLock | setAcquireCount | lock | unlock | seek | flush
    | truncate | write | compare | acquired | readPidCalled | readPidReturns =>
      exact ⟨ht.names, ht.dropped⟩
  | discardLock => exact hpre.elim
  | openEmptied path' i hn => exact absurd rfl hown
  | drop g =>
      refine ⟨ht.names, fun {k} hd hmem => ?_⟩
      by_cases hkg : k = g
      · exact hpre (hkg ▸ hmem)
      · exact ht.dropped (by simpa [Function.update_of_ne hkg] using hd) hmem
  | openAt path' kind i hn =>
      refine ⟨fun hn' => ?_, fun hd => hnew rfl rfl hd⟩
      obtain ⟨k, hk, hrest⟩ := ht.names hn'
      exact ⟨k, List.mem_cons_of_mem _ hk, hrest⟩
  | create path' kind i hn hi hkind =>
      refine ⟨fun {j} hn' => ?_, fun hd => hnew rfl rfl hd⟩
      by_cases hp : path = path'
      · subst hp
        obtain rfl : i = j := by simpa using hn'
        exact ⟨_, List.mem_cons_self .., rfl, rfl⟩
      · obtain ⟨k, hk, hrest⟩ := ht.names (by simpa [Function.update_of_ne hp] using hn')
        exact ⟨k, List.mem_cons_of_mem _ hk, hrest⟩
  | close g ho content hcontent => exact ht.close hw (hpre ho).1 content
  | unlink path' i hn =>
      refine ⟨fun {j} hn' => ?_, ht.dropped⟩
      by_cases hp : path = path'
      · simp [hp] at hn'
      · exact ht.names (by simpa [Function.update_of_ne hp] using hn')

/-- An operation takes nobody's lock away but that of the handle it unlocks or closes,
which must be stale if it is locked. -/
theorem locked_or_stale (hpre : tendedPre w o) (hc : Change cfg p w o w') (hl : w.lock g ≠ none) :
    w'.lock g ≠ none ∨ w.Stale g := by
  cases hc with
  | lock k flags mode hm ho hc =>
      refine Or.inl ?_
      by_cases hgk : g = k
      · simp [hgk]
      · simpa [Function.update_of_ne hgk] using hl
  | unlock k ho =>
      by_cases hgk : g = k
      · exact Or.inr (hgk ▸ hpre ho)
      · exact Or.inl (by simpa [Function.update_of_ne hgk] using hl)
  | close k ho content hcontent =>
      by_cases hgk : g = k
      · subst hgk
        exact Or.inr ((hpre ho).2.resolve_left hl)
      · exact Or.inl (by simpa [Function.update_of_ne hgk] using hl)
  | same | setFh | setInnerLock | discardLock | setAcquiredLock | setAcquireCount | drop | openAt
    | openEmptied | create | seek | flush | truncate | write | compare | unlink | acquired
    | readPidCalled | readPidReturns => exact Or.inl hl

/-- A permitted operation of one client keeps what the others rely on. -/
theorem TendedFor.change (hw : w.Wf) (hown : Own p w o) (hpre : tendedPre w o)
    (hc : Change cfg p w o w') (hq : q ≠ p) : TendedFor q w w' := by
  intro h hh
  have hfile := (untouched_of_change hw hown hc (hh ▸ hq)).file
  refine ⟨hfile.mem, fun hopen => ⟨hfile.stale hopen, ?_⟩⟩
  rintro (hstale | ⟨k, hne, hpath, hino, hl⟩)
  · exact Or.inl (hfile.stale hopen hstale)
  · rcases locked_or_stale hpre hc hl with hkept | hstale
    · exact Or.inr ⟨k, hne, hpath, hino, hkept⟩
    · refine Or.inl (hfile.stale hopen ?_)
      unfold Fs.Stale at hstale ⊢
      rwa [← hino]

theorem TendedFor.trans {w'' : World ι} (h₁ : TendedFor p w w') (h₂ : TendedFor p w' w'') :
    TendedFor p w w'' := by
  intro h hh
  obtain ⟨hmem, hkept⟩ := h₁ h hh
  obtain ⟨hmem', hkept'⟩ := h₂ h hh
  refine ⟨hmem'.trans hmem, fun hopen => ?_⟩
  obtain ⟨hstale, hspare⟩ := hkept hopen
  obtain ⟨hstale', hspare'⟩ := hkept' (hmem.2 hopen)
  exact ⟨fun hs => hstale' (hstale hs), fun hs => hspare' (hspare hs)⟩

/-- Closing the file that is open. -/
theorem Has.closed {current : Option (Handle ι Path)} {content : List UInt8}
    (hs : Has p path current (some h) w) :
    Has p path current none ((w.store h content []).discard h) := by
  refine ⟨hs.1, fun _ hk => by simp at hk, fun k hk => iff_of_false (fun hmem => ?_) (by simp)⟩
  obtain ⟨hmem, hne⟩ : k ∈ w.opened ∧ k ≠ h := by simpa using hmem
  exact hne (Option.some.inj ((hs.2.2 k hk).1 hmem)).symm

theorem Has.stable {current file : Option (Handle ι Path)} (hu : Undisturbed p w w')
    (hr : TendedFor p w w') (hs : Has p path current file w) : Has p path current file w' :=
  ⟨hu.fh.trans hs.1, hs.2.1, fun h hh => (hr h hh).1.trans (hs.2.2 h hh)⟩

end Steps

/-- The contract of `TemporaryFileLock`s about the file at their path. -/
def tendedContract (cfg : Config ι) (path : Path) (g : Guard (machine cfg)) : Contract cfg g where
  inv := Tended path
  rely := TendedFor
  pre _ _ := tendedPre
  idle p := Unoccupied p path
  rely_refl _ _ _ _ := ⟨Iff.rfl, fun _ => ⟨id, id⟩⟩
  rely_trans := fun _ h₁ h₂ => h₁.trans h₂
  inv_change := fun hw ht hown hpre _ hc => ht.change hw hown hpre hc
  rely_change := fun hw _ hown hpre _ hc _ hq => TendedFor.change hw hown hpre hc hq
  inv_finalize := fun _ ht he =>
    absurd (Config.finalize_cases he).1 (ht.dropped (Config.finalize_cases he).2.1)
  rely_finalize := fun _ ht he =>
    absurd (Config.finalize_cases he).1 (ht.dropped (Config.finalize_cases he).2.1)
  idle_stable := by
    rintro p w w' - - - hu hr (hs | ⟨h, hs, hheld⟩)
    · exact Or.inl (hs.stable hu hr)
    · exact Or.inr ⟨h, hs.stable hu hr, hu.held.trans hheld⟩

/-! ## Single operations -/

section Triples

variable {cfg : Config ι} {path : Path} {g : Guard (machine cfg)} {p : ι} {c : Call}

/-- A triple under this contract. -/
abbrev TendedTriple (path : Path) (g : Guard (machine cfg)) (p : ι) (c : Call) {α : Type}
    (P : World ι → Prop) (x : Py ι α) (Q : α → World ι → Prop) (E : Exc → World ι → Prop) : Prop :=
  (tendedContract cfg path g).Triple p c P x Q E

/-- The instance's new handle: its lock, and whether it has been refused. -/
def Arrived (p : ι) (path : Path) (h : Handle ι Path) (m : Option LockMode) (w : World ι) : Prop :=
  Has p path none (some h) w ∧ LockIs p h m w

/-- The new handle has been refused the lock. -/
def TurnedAway (p : ι) (path : Path) (h : Handle ι Path) (w : World ι) : Prop :=
  Arrived p path h none w ∧ Dispensable h w

/-- The stored handle has lost its name. -/
def Outdated (p : ι) (path : Path) (h : Handle ι Path) (w : World ι) : Prop :=
  Has p path (some h) (some h) w ∧ w.Stale h

/-- The new handle has been closed. -/
def LeftBehind (p : ι) (path : Path) (h : Handle ι Path) (w : World ι) : Prop :=
  Has p path none none w ∧ Closed p h w

instance stable_has (current file : Option (Handle ι Path)) :
    ((tendedContract cfg path g).ctx p c).Stable (Has p path current file) :=
  stable_of fun _ _ _ hu hr hs => hs.stable hu hr

instance stable_unoccupied :
    ((tendedContract cfg path g).ctx p c).Stable (Unoccupied p path) :=
  inferInstanceAs (Context.Stable _ ((tendedContract cfg path g).idle p))

instance stable_arrived (h : Handle ι Path) (m : Option LockMode) :
    ((tendedContract cfg path g).ctx p c).Stable (Arrived p path h m) :=
  inferInstanceAs (Context.Stable _ fun _ => _ ∧ _)

instance stable_turnedAway (h : Handle ι Path) :
    ((tendedContract cfg path g).ctx p c).Stable (TurnedAway p path h) :=
  stable_of fun _ _ _ hu hr ⟨⟨hs, hl⟩, hspare⟩ =>
    have hopen := (hs.2.2 h hl.1).2 rfl
    ⟨⟨hs.stable hu hr, hl.keep hu⟩, ((hr h hl.1).2 hopen).2 hspare⟩

instance stable_outdated (h : Handle ι Path) :
    ((tendedContract cfg path g).ctx p c).Stable (Outdated p path h) :=
  stable_of fun _ _ _ hu hr ⟨hs, hstale⟩ =>
    have ho := (hs.2.1 h rfl).1
    ⟨hs.stable hu hr, ((hr h ho).2 ((hs.2.2 h ho).2 rfl)).1 hstale⟩

instance stable_leftBehind (h : Handle ι Path) :
    ((tendedContract cfg path g).ctx p c).Stable (LeftBehind p path h) :=
  inferInstanceAs (Context.Stable _ fun _ => _ ∧ _)

variable (hfaultless : Faultless cfg)
include hfaultless

section Operations

variable {E : Exc → World ι → Prop} [∀ e, ((tendedContract cfg path g).ctx p c).Stable (E e)]

/-- Opening the lock file, which is created if need be. -/
theorem openLock_tended :
    TendedTriple path g p c (Has p path none none) (perform (.openFile path .append))
      (fun h => Arrived p path h none) E := by
  refine faultless_rule hfaultless (fun _ _ _ _ => ⟨by simp [Own], trivial⟩) ?_
  intro w choice r w' hw _ hs hact
  have hentered : ∀ i (w₁ : World ι), w₁.serial = w.serial → w₁.opened = w.opened →
      w₁.lock = w.lock → w₁.dropped = w.dropped → w₁.fh = w.fh →
      Arrived p path (w₁.handle p path i) none (w₁.openAt p path i) := by
    intro i w₁ hserial hopened hlock hdropped hfh
    have hsame : w₁.handle p path i = w.handle p path i := by simp [Fs.handle, hserial]
    refine ⟨⟨by rw [openAt_fh, hfh, hs.1], ?_, fun k hk => ?_⟩, rfl, ?_, ?_⟩
    · intro k hk
      obtain rfl := Option.some.inj hk
      exact ⟨rfl, rfl⟩
    · have hother : k ∉ w.opened := fun hmem => by simpa using (hs.2.2 k hk).1 hmem
      simp [hopened, hother, eq_comm]
    · rw [openAt_dropped, hdropped, hsame]
      exact Bool.eq_false_iff.2 fun hd => absurd (hw.dropped_serial hd) (by simp)
    · rw [openAt_toFs, Fs.openAt_lock, hlock, hsame]
      exact hw.fs.lock_open hw.fs.handle_not_mem
  simp only [Config.act] at hact
  split at hact
  · simp only [Option.some.injEq, Prod.mk.injEq] at hact
    obtain ⟨rfl, rfl⟩ := hact
    exact hentered _ w rfl rfl rfl rfl rfl
  · simp only [Option.ite_none_right_eq_some, Option.some.injEq, Prod.mk.injEq] at hact
    obtain ⟨-, rfl, rfl⟩ := hact
    exact hentered _ _ rfl rfl rfl rfl rfl

/-- The lock call: a refused handle is dispensable. -/
theorem flock_tended (h : Handle ι Path) :
    TendedTriple path g p c (Arrived p path h none) (perform (.flock h .lockMethod))
      (fun _ => Arrived p path h (some .exclusive))
      (fun e w => e = .osError .EAGAIN ∧ TurnedAway p path h w) := by
  refine faultless_rule hfaultless (fun w _ _ hs => ⟨hs.2.1, trivial⟩) ?_
  rintro w choice r w' hw - ⟨hs, ho, hd, hlock⟩ hact
  have hopen := (hs.2.2 h ho).2 rfl
  simp only [Config.act, Config.onOpen, if_pos hopen, LockFlags.mode, LockFlags.lockMethod,
    if_true] at hact
  split at hact
  · simp only [Option.some.injEq, Prod.mk.injEq] at hact
    obtain ⟨rfl, rfl⟩ := hact
    exact ⟨rfl, ⟨hs, ho, hd, hlock⟩, dispensable_of_conflicts hw hopen ‹_›⟩
  · simp only [Option.some.injEq, Prod.mk.injEq] at hact
    obtain ⟨rfl, rfl⟩ := hact
    exact ⟨hs, ho, hd, by simp⟩

/-- Closing the handle after that. -/
theorem closeTurnedAway_tended (h : Handle ι Path) :
    TendedTriple path g p c (TurnedAway p path h) (perform (.close h))
      (fun _ => LeftBehind p path h) E := by
  refine faultless_rule hfaultless (fun w _ _ hs => ⟨hs.1.2.1, fun _ => ⟨hs.2, Or.inl hs.1.2.2.2⟩⟩) ?_
  rintro w choice r w' hw - ⟨⟨hs, ho, hd, -⟩, -⟩ hact
  have hopen := (hs.2.2 h ho).2 rfl
  simp only [Config.act, if_pos hopen, Option.some.injEq, Prod.mk.injEq] at hact
  obtain ⟨rfl, rfl⟩ := hact
  exact ⟨hs.closed, ho, hd, ho ▸ hw.fs.serial_lt hopen, by simp⟩

/-- Emptying the file once it is locked. -/
theorem prepareFh_tended (self : Lock) (h : Handle ι Path) :
    TendedTriple path g p c (Arrived p path h (some .exclusive)) (self.prepareFh h)
      (fun _ => Arrived p path h (some .exclusive)) E := by
  have hstep : ∀ {o : Op ι}, o = .seek h ∨ o = .truncate h →
      TendedTriple path g p c (Arrived p path h (some .exclusive)) (perform o)
        (fun _ => Arrived p path h (some .exclusive)) E := by
    intro o ho
    rcases ho with rfl | rfl
    all_goals
      refine faultless_rule hfaultless (fun w _ _ hs => ⟨hs.2.1, trivial⟩) ?_
      intro w choice r w' _ _ hs hact
      simp only [Config.act, Config.onOpen, if_pos ((hs.1.2.2 h hs.2.1).2 rfl), Option.some.injEq,
        Prod.mk.injEq] at hact
      obtain ⟨rfl, rfl⟩ := hact
      exact hs
  unfold Lock.prepareFh
  split
  · exact Hoare.bind (hstep (Or.inl rfl)) fun _ => hstep (Or.inr rfl)
  · exact Hoare.pure fun _ _ hs => hs

theorem setFh_tended (h : Handle ι Path) :
    TendedTriple path g p c (Arrived p path h (some .exclusive)) (perform (.setFh (some h)))
      (fun _ => Has p path (some h) (some h)) E := by
  refine faultless_rule hfaultless ?_ ?_
  · rintro w - - ⟨hs, ho, hd, -⟩
    refine ⟨fun k hk => ?_, trivial⟩
    obtain rfl := Option.some.inj hk
    exact ⟨ho, (hs.2.2 h ho).2 rfl, hd⟩
  · rintro w choice r w' - - ⟨hs, -⟩ hact
    simp only [Config.act, Option.some.injEq, Prod.mk.injEq] at hact
    obtain ⟨rfl, rfl⟩ := hact
    exact ⟨by simp, hs.2⟩

theorem drop_tended (h : Handle ι Path) :
    TendedTriple path g p c (LeftBehind p path h) (perform (.drop h))
      (fun _ => Has p path none none) E := by
  refine faultless_rule hfaultless ?_ ?_
  · rintro w - - ⟨hs, ho, -, hserial, hclosed⟩
    exact ⟨⟨ho, hserial, by simp [hs.1]⟩, hclosed⟩
  · rintro w choice r w' - - ⟨hs, -⟩ hact
    simp only [Config.act, Option.some.injEq, Prod.mk.injEq] at hact
    obtain ⟨rfl, rfl⟩ := hact
    exact hs

/-- `os.fstat` of the stored handle. -/
theorem fstat_tended (h : Handle ι Path) :
    TendedTriple path g p c (Has p path (some h) (some h)) (perform (.fstat h))
      (fun i w => i = h.ino ∧ Has p path (some h) (some h) w) E := by
  refine faultless_rule hfaultless (fun w _ _ _ => ⟨trivial, trivial⟩) ?_
  intro w choice r w' _ _ hs hact
  have hopen := (hs.2.2 h (hs.2.1 h rfl).1).2 rfl
  simp only [Config.act, Config.onOpen, if_pos hopen, Option.some.injEq, Prod.mk.injEq] at hact
  obtain ⟨rfl, rfl⟩ := hact
  exact ⟨rfl, hs⟩

/-- What the inode comparison has found out about the stored handle. -/
def FoundOut (p : ι) (path : Path) (h : Handle ι Path) (matching : Bool) (w : World ι) : Prop :=
  if matching then Has p path (some h) (some h) w else Outdated p path h w

omit hfaultless in
instance stable_foundOut (h : Handle ι Path) (b : Bool) :
    ((tendedContract cfg path g).ctx p c).Stable (FoundOut p path h b) := by
  cases b
  · exact stable_outdated h
  · exact stable_has (some h) (some h)

/-- `os.stat` of the path: a handle whose inode it does not name is stale. -/
theorem stat_tended (h : Handle ι Path) :
    TendedTriple path g p c (Has p path (some h) (some h)) (perform (.stat path))
      (fun i => FoundOut p path h (h.ino == i))
      (fun e w => e = .osError .ENOENT ∧ Outdated p path h w) := by
  refine faultless_rule hfaultless (fun w _ _ _ => ⟨trivial, trivial⟩) ?_
  intro w choice r w' hw _ hs hact
  obtain ⟨ho, hpath⟩ := hs.2.1 h rfl
  have hstale : w.names path ≠ some h.ino → w.Stale h := fun hn =>
    stale_of_names hw ((hs.2.2 h ho).2 rfl) (hpath ▸ hn)
  simp only [Config.act] at hact
  split at hact
  · rename_i i hn
    simp only [Option.some.injEq, Prod.mk.injEq] at hact
    obtain ⟨rfl, rfl⟩ := hact
    change FoundOut p path h (h.ino == i) (w.compare p path i)
    by_cases hino : h.ino = i
    · rw [beq_iff_eq.2 hino]
      exact hs
    · rw [beq_eq_false_iff_ne.2 hino]
      exact ⟨hs, hstale fun heq => hino (Option.some.inj (hn.symm.trans heq)).symm⟩
  · rename_i hn
    simp only [Option.some.injEq, Prod.mk.injEq] at hact
    obtain ⟨rfl, rfl⟩ := hact
    exact ⟨rfl, hs, hstale (by simp [hn])⟩

/-- `_fh_matches_path`: a handle that does not match is stale. -/
theorem fhMatchesPath_tended (h : Handle ι Path) :
    TendedTriple path g p c (Has p path (some h) (some h)) (fhMatchesPath h path)
      (fun b => FoundOut p path h b) E :=
  fhMatchesPath_rule (S := fun h => Has p path (some h) (some h)) (fstat_tended hfaultless h)
    (stat_tended hfaultless h)

/-- `acquire` is about to return. -/
theorem acquired_tended (h : Handle ι Path) :
    TendedTriple path g p c (Has p path (some h) (some h)) (perform .acquired)
      (fun _ => Unoccupied p path) E := by
  refine faultless_rule hfaultless (fun w _ _ _ => ⟨trivial, trivial⟩) ?_
  intro w choice r w' _ _ hs hact
  simp only [Config.act, Option.some.injEq, Prod.mk.injEq] at hact
  obtain ⟨rfl, rfl⟩ := hact
  exact Or.inr ⟨h, hs, Function.update_self ..⟩

/-- `os.unlink` of the path: the stored handle is stale afterwards. -/
theorem unlinkIfPresent_tended (h : Handle ι Path) :
    TendedTriple path g p c (Has p path (some h) (some h)) (unlinkIfPresent path)
      (fun _ => Outdated p path h) E := by
  refine Hoare.suppress (F := fun e w => e = .osError .ENOENT ∧ Outdated p path h w)
    (faultless_rule hfaultless (fun w _ _ _ => ⟨trivial, trivial⟩) ?_) (fun e w _ _ hs => hs.2)
    fun e w _ he hs => absurd he (by simp [hs.1, Exc.isFileNotFound])
  intro w choice r w' hw _ hs hact
  obtain ⟨ho, hpath⟩ := hs.2.1 h rfl
  have hstale : w.names path ≠ some h.ino → w.Stale h := fun hn =>
    stale_of_names hw ((hs.2.2 h ho).2 rfl) (hpath ▸ hn)
  simp only [Config.act] at hact
  split at hact
  · rename_i i hn
    simp only [Option.some.injEq, Prod.mk.injEq] at hact
    obtain ⟨rfl, rfl⟩ := hact
    refine ⟨hs, ?_⟩
    by_cases hino : w.names path = some h.ino
    · simp [Fs.Stale, hino]
    · have := hstale hino
      simp only [Fs.Stale] at this
      simp [Fs.Stale, this]
  · rename_i hn
    simp only [Option.some.injEq, Prod.mk.injEq] at hact
    obtain ⟨rfl, rfl⟩ := hact
    exact ⟨rfl, hs, hstale (by simp [hn])⟩

end Operations

/-! ## The code -/

section Code

variable {self : Lock}

/-- `acquire` with a handle it has just opened. -/
theorem acquireOpened_tended (hflags : self.flags = .lockMethod) (timeout checkInterval : Rat)
    (b : Bool) (h : Handle ι Path) :
    TendedTriple path g p c (Arrived p path h none)
      (self.acquireOpened timeout checkInterval b h) (fun h => Has p path (some h) (some h))
      (fun _ => Has p path none none) := by
  refine acquireOpened_rule (N := Arrived p path h none)
    (L := Arrived p path h (some .exclusive))
    (T := fun e w => e = .alreadyLocked ∧ TurnedAway p path h w) (G := fun _ => LeftBehind p path h)
    (D := fun _ => LeftBehind p path h) ?_ ?_ (fun _ _ _ _ _ hs => hs) ?_ (fun _ _ _ _ ht => ht.2.1)
    (fun _ _ => pause_faultless hfaultless (Or.inl ⟨_, rfl⟩) fun _ => trivial)
    (fun _ _ _ => pause_faultless hfaultless (Or.inr ⟨_, _, rfl⟩) fun _ => trivial) (prepareFh_tended hfaultless self h)
    (setFh_tended hfaultless h) fun _ => drop_tended hfaultless h
  · rw [hflags]
    refine posixLock_rule (flock_tended hfaultless h) ?_
    rintro e w - ⟨rfl, hs⟩
    exact ⟨rfl, hs⟩
  · exact fun e => (closeTurnedAway_tended hfaultless h).of_pre fun _ _ hs => hs.2
  · rintro e w - he ⟨rfl, -⟩
    cases he

/-- Reading the handle between two calls. -/
theorem current_tended {E : Exc → World ι → Prop}
    [∀ e, ((tendedContract cfg path g).ctx p c).Stable (E e)] :
    TendedTriple path g p c (Unoccupied p path) (perform .fh)
      (fun v => (v.elim (Has p path none none) fun h => Has p path (some h) (some h) :
        World ι → Prop)) E := by
  refine (fh_faultless hfaultless fun _ => trivial).of_post ?_
  rintro v w - ⟨rfl, hs | ⟨h, hs, -⟩⟩
  · rw [hs.1]
    exact hs
  · rw [hs.1]
    exact hs

/-- `Lock.acquire`. -/
theorem lockAcquire_tended (hflags : self.flags = .lockMethod)
    (hmode : openKind self.mode = some .append) (hpath : self.filename = path)
    (timeout checkInterval : Option Rat) (b : Option Bool) :
    TendedTriple path g p c (Unoccupied p path) (self.acquire timeout checkInterval b)
      (fun h => Has p path (some h) (some h)) (fun _ => Has p path none none) := by
  subst hpath
  exact lockAcquire_rule (N := fun h => Arrived p self.filename h none) hmode
    (current_tended hfaultless) (openLock_tended hfaultless)
    fun h => acquireOpened_tended hfaultless hflags _ _ _ h

/-- `Lock.release` of a handle that has lost its name. -/
theorem lockRelease_tended (hself : self.raiseOnReleaseError = false) (h : Handle ι Path)
    {E : Exc → World ι → Prop} [∀ e, ((tendedContract cfg path g).ctx p c).Stable (E e)] :
    TendedTriple path g p c (Outdated p path h) self.release (fun _ => Has p path none none) E := by
  refine release_rule (I := fun _ => False) (Z := Has p path none none) (R := Outdated p path)
    (U := Outdated p path) (V := fun k => Has p path (some k) none) ?_ ?_ ?_ ?_
    (fun h => absurd (hself.symm.trans h) (by simp)) fun _ _ _ hf => hf.elim
  · refine (fh_faultless hfaultless fun _ => trivial).of_post ?_
    rintro v w - ⟨hfh, hs⟩
    obtain rfl : some h = v := hs.1.1.symm.trans hfh
    exact hs
  · intro k
    refine faultless_rule hfaultless (fun w _ _ hs => ⟨(hs.1.2.1 k rfl).1, fun _ => hs.2⟩) ?_
    intro w choice r w' _ _ hs hact
    simp only [Config.act, Config.onOpen, if_pos ((hs.1.2.2 k (hs.1.2.1 k rfl).1).2 rfl),
      Option.some.injEq, Prod.mk.injEq] at hact
    obtain ⟨rfl, rfl⟩ := hact
    exact hs
  · intro k
    refine faultless_rule hfaultless (fun w _ _ hs =>
      ⟨(hs.1.2.1 k rfl).1, fun _ => ⟨Or.inl hs.2, Or.inr hs.2⟩⟩) ?_
    rintro w choice r w' - - ⟨hs, -⟩ hact
    simp only [Config.act, if_pos ((hs.2.2 k (hs.2.1 k rfl).1).2 rfl), Option.some.injEq,
      Prod.mk.injEq] at hact
    obtain ⟨rfl, rfl⟩ := hact
    exact hs.closed
  · intro k
    refine faultless_rule hfaultless (fun w _ _ _ => ⟨fun k hk => by simp at hk, trivial⟩) ?_
    rintro w choice r w' - - ⟨-, hs⟩ hact
    simp only [Config.act, Option.some.injEq, Prod.mk.injEq] at hact
    obtain ⟨rfl, rfl⟩ := hact
    exact ⟨Function.update_self .., hs⟩

/-- `_acquire_verified`. -/
theorem acquireVerified_tended (hflags : self.flags = .lockMethod)
    (hself : self.raiseOnReleaseError = false) (hmode : openKind self.mode = some .append)
    (hpath : self.filename = path) (timeout checkInterval : Option Rat) (b : Option Bool) :
    TendedTriple path g p c (Unoccupied p path)
      (TemporaryFileLock.acquireVerified self path timeout checkInterval b)
      (fun h => Has p path (some h) (some h)) (fun _ => Has p path none none) :=
  acquireVerified_rule (Z := Has p path none none) (M := FoundOut p path)
    (lockAcquire_tended hfaultless hflags hmode hpath timeout checkInterval b)
    (fhMatchesPath_tended hfaultless) (fun h => lockRelease_tended hfaultless hself h)
    (fun _ _ hs => Or.inl hs)
    (fun _ _ hs => hs) (fun _ => pause_faultless hfaultless (Or.inl ⟨_, rfl⟩) fun _ => trivial)
    fun _ _ => pause_faultless hfaultless (Or.inr ⟨_, _, rfl⟩) fun _ => trivial

theorem TemporaryFileLock.acquire_tended {self : TemporaryFileLock} (hpath : self.filename = path)
    (hflags : self.flags = .lockMethod) (timeout checkInterval : Option Rat) (b : Option Bool) :
    TendedTriple path g p c (Unoccupied p path) (self.acquire timeout checkInterval b)
      (fun _ => Unoccupied p path) (fun _ => Unoccupied p path) := by
  subst hpath
  have hname : self.toLock.filename = self.filename := rfl
  have hverified : TendedTriple self.filename g p c (Unoccupied p self.filename)
      (TemporaryFileLock.acquireVerified self.toLock self.filename timeout checkInterval b)
      (fun h => Has p self.filename (some h) (some h)) (fun _ => Has p self.filename none none) :=
    acquireVerified_tended hfaultless hflags rfl rfl hname timeout checkInterval b
  refine Hoare.bind (hverified.conseq (fun _ _ hs => hs) (fun _ _ _ hs => hs)
    fun _ _ _ hs => Or.inl hs) fun h => ?_
  exact Hoare.bind (acquired_tended hfaultless h) fun _ => Hoare.pure fun _ _ hs => hs

theorem TemporaryFileLock.release_tended {self : TemporaryFileLock} (hpath : self.filename = path) :
    TendedTriple path g p c (Unoccupied p path) self.release
      (fun _ => Unoccupied p path) (fun _ => Unoccupied p path) := by
  subst hpath
  refine Hoare.of_post (temporaryRelease_rule (Z := Has p self.filename none none)
    (U := Outdated p self.filename) (F := fun _ _ => False) (current_tended hfaultless)
    (fun h => unlinkIfPresent_tended hfaultless h)
    (fun h => lockRelease_tended hfaultless rfl h) fun e => ?_)
    fun _ _ _ hs => Or.inl hs
  exact Hoare.of_false fun _ _ hf => hf

end Code

end Triples

/-! ## Whole runs -/

section Runs

variable {cfg : Config ι} {path : Path} {g : Guard (machine cfg)}

/-- Every call of a `TemporaryFileLock` at the path keeps the contract. -/
theorem tended_verified (hcfg : AllTemporary cfg path) (hfaultless : Faultless cfg) :
    (tendedContract cfg path g).toDiscipline.Verified := by
  intro p (c : Call) w hw hidle _
  have hstable : ((tendedContract cfg path g).ctx p c).Stable (Unoccupied p path) := inferInstance
  obtain ⟨self, hobject, hpath, hflags⟩ := hcfg p
  simp only [machine, hobject]
  cases c with
  | acquire timeout checkInterval failWhenLocked =>
      exact Hoare.toCall hstable
        (TemporaryFileLock.acquire_tended hfaultless hpath hflags _ _ _) hw hidle
  | enter =>
      exact Hoare.toCall hstable
        (TemporaryFileLock.acquire_tended hfaultless hpath hflags _ _ _) hw hidle
  | release | exit =>
      exact Hoare.toCall hstable (TemporaryFileLock.release_tended hfaultless hpath) hw hidle
  | readPid | write | flush => exact fun w' hw' hr => hstable.keep hw hw' hr hidle

/-- Whenever no instance is inside a call and none holds the lock, the path does not
exist: whoever has refused or outrun the instance that created the file has removed
it. -/
theorem temporary_locks_leave_nothing (hcfg : AllTemporary cfg path) (hfaultless : Faultless cfg)
    {s : (machine cfg).State}
    (hs : Reach (fun w : World ι => Pristine w ∧ w.names path = none) (Guard.free (machine cfg)) s)
    (hidle : ∀ p, s.thread p = none) (hfree : ∀ p, (files s).held p = false) :
    (files s).names path = none := by
  have hholds : (tendedContract cfg path (Guard.free (machine cfg))).toDiscipline.Holds s := by
    refine (tended_verified hcfg hfaultless).sound ?_ hs
    intro w ⟨h0, hnone⟩
    refine ⟨⟨h0.wf, fun hn => by simp [hnone] at hn, fun _ => by simp [h0.opened]⟩, fun p => ?_⟩
    exact Or.inl ⟨h0.fh p, fun _ hk => by simp at hk, fun k _ => by simp [h0.opened]⟩
  obtain ⟨-, ht⟩ := hholds.1
  cases hn : (files s).names path with
  | none => rfl
  | some i =>
      -- whoever has the file open is idle, and so holds the lock
      obtain ⟨h, hopen, -, -⟩ := ht.names hn
      rcases hholds.idle (hidle h.owner) with hnone | ⟨k, -, hheld⟩
      · simpa using (hnone.2.2 h rfl).1 hopen
      · exact absurd (hheld.symm.trans (hfree h.owner)) (by simp)

end Runs

/-- One instance acquires, the other is refused, and both are done. -/
def twoTemporary.contend : List (machine twoTemporary).Label :=
  .call true .enter :: List.replicate 9 (.op true {}) ++
    .call false .enter :: List.replicate 5 (.op false {}) ++
    .call true .release :: List.replicate 6 (.op true {})

/-- After such a run both instances are idle, and the path is gone. -/
theorem temporary_locks_leave_nothing_run :
    ∃ s, run twoTemporary.contend (⟨World.empty, fun _ => none⟩ : (machine twoTemporary).State) =
      some s ∧ (∀ p, s.thread p = none) ∧ (∀ p, (files s).held p = false) ∧
        (files s).names ['f'] = none := by
  have hobserve : (run twoTemporary.contend
      (⟨World.empty, fun _ => none⟩ : (machine twoTemporary).State)).map (fun s =>
        ((s.thread true).isNone && (s.thread false).isNone,
          !(files s).held true && !(files s).held false)) = some (true, true) := by rfl
  obtain ⟨s, hrun, hs⟩ := Option.map_eq_some_iff.1 hobserve
  obtain ⟨hdone, hfree⟩ := Prod.mk.inj hs
  simp only [Bool.and_eq_true, Option.isNone_iff_eq_none, Bool.not_eq_true'] at hdone hfree
  have hidle : ∀ p, s.thread p = none := fun p => by
    cases p
    · exact hdone.2
    · exact hdone.1
  have hheld : ∀ p, (files s).held p = false := fun p => by
    cases p
    · exact hfree.2
    · exact hfree.1
  have hstart : Reach (fun w : World Bool => Pristine w ∧ w.names ['f'] = none)
      (Guard.free (machine twoTemporary)) ⟨World.empty, fun _ => none⟩ :=
    .start ⟨empty_pristine, rfl⟩
  exact ⟨s, hrun, hidle, hheld, temporary_locks_leave_nothing twoTemporary_all (fun _ _ _ => rfl)
    (hstart.run hrun) hidle hheld⟩

end Portalocker
