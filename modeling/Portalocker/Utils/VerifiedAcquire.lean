import Portalocker.Utils.Attempts
set_option autoImplicit false
set_option linter.unusedSectionVars false

/-!
# What one verified acquisition does

`_acquire_verified` runs `Lock.acquire` again and again until its handle names the lock
file.  At every moment all files it has opened are closed and unlocked again, except the
one of the iteration that runs; this is what its operations show for every exception at
any step, however the path changes meanwhile.
-/

namespace Portalocker

open Posix Interleaving World Contract

variable {ι : Type} [DecidableEq ι]

/-! ## Handles that have been given back -/

/-- The handle has been closed, and unlocked if it had been locked. -/
def GivenBack (g : Handle ι Path) (tr : Trace ι) : Prop :=
  ((g, .ok ()) ∈ triesOf tr → g ∈ unlocksOf tr) ∧ g ∈ closesOf tr

/-- Every handle the call has opened is kept on purpose or has been given back, and no
other one has been tried. -/
def Accounted (p : ι) (keep : Handle ι Path → Prop) (W : World ι × Trace ι) : Prop :=
  (∀ g, .ok g ∈ opensOf W.2 → keep g ∨ (Shut p g W.1 ∧ GivenBack g W.2)) ∧
    ∀ attempt ∈ triesOf W.2, .ok attempt.1 ∈ opensOf W.2

/-- The call holds nothing. -/
def EmptyHanded (p : ι) (W : World ι × Trace ι) : Prop :=
  W.1.fh p = none ∧ accountOf W.2 = ([], false) ∧ Accounted p (fun _ => False) W

/-- The call holds `h` and nothing else. -/
def HoldsOnly (p : ι) (h : Handle ι Path) (W : World ι × Trace ι) : Prop :=
  ((Opened p h W.1 ∧ W.1.fh p = some h) ∧ ∃ m, LockIs p h (some m) W.1) ∧
    ((h, .ok ()) ∈ triesOf W.2 ∧ accountOf W.2 = ([h], false)) ∧ Accounted p (· = h) W

/-- The steps whose exceptions nothing answers by closing the file. -/
def Op.Exposing : Op ι → Prop
  | .seek _ | .truncate _ | .attempts _ | .sleep _ _ | .fstat _ | .stat _ => True
  | _ => False

theorem Op.Unguarded.exposing {o : Op ι} (h : o.Unguarded) : o.Exposing := by
  cases o with
  | seek | truncate | attempts | sleep => trivial
  | _ => exact h.elim

/-- One of them has raised, and the file is still open. -/
def Exposed (cfg : Config ι) (c : Call) (e : Exc) (tr : Trace ι) : Prop :=
  ((accountOf tr).1 ≠ [] ∧ (accountOf tr).2 = true) ∧
    ∃ o : Op ι, o.Exposing ∧ cfg.mayRaise c o e = true

/-- The call raises `e`. -/
def Fails (cfg : Config ι) (c : Call) (p : ι) (e : Exc) (W : World ι × Trace ι) : Prop :=
  EmptyHanded p W ∨ Exposed cfg c e W.2

section Basics

variable {cfg : Config ι} {c : Call} {p : ι} {h g : Handle ι Path} {w w' : World ι}
  {tr : Trace ι} {keep : Handle ι Path → Prop}

instance stable_accounted : (cfg.soloTraced p c).Stable (Accounted p keep) := by
  refine ⟨fun {W W'} hw hw' hr ha => ⟨fun g hg => ?_, by rw [hr.2]; exact ha.2⟩⟩
  have hkeep : (cfg.solo p c).Stable (Shut p g) := solo_shut g
  have hshut : Shut p g W.1 → Shut p g W'.1 := hkeep.keep hw hw' hr.1
  rw [hr.2] at hg ⊢
  exact (ha.1 g hg).imp_right fun hg => ⟨hshut hg.1, hg.2⟩

instance stable_emptyHanded : (cfg.soloTraced p c).Stable (EmptyHanded p) := by
  have hfh : (cfg.soloTraced p c).Stable fun W : World ι × Trace ι => W.1.fh p = none :=
    Context.stable_world (P := fun w : World ι => w.fh p = none)
  have haccount : (cfg.soloTraced p c).Stable
      fun W : World ι × Trace ι => accountOf W.2 = ([], false) :=
    Context.stable_trace (φ := fun tr : Trace ι => accountOf tr = ([], false))
  unfold EmptyHanded
  infer_instance

instance stable_holdsOnly : (cfg.soloTraced p c).Stable (HoldsOnly p h) := by
  have hworld : (cfg.soloTraced p c).Stable fun W : World ι × Trace ι =>
      (Opened p h W.1 ∧ W.1.fh p = some h) ∧ ∃ m, LockIs p h (some m) W.1 :=
    Context.stable_world (P := fun w : World ι =>
      (Opened p h w ∧ w.fh p = some h) ∧ ∃ m, LockIs p h (some m) w)
  have htrace : (cfg.soloTraced p c).Stable fun W : World ι × Trace ι =>
      (h, .ok ()) ∈ triesOf W.2 ∧ accountOf W.2 = ([h], false) :=
    Context.stable_trace (φ := fun tr : Trace ι =>
      (h, .ok ()) ∈ triesOf tr ∧ accountOf tr = ([h], false))
  unfold HoldsOnly
  infer_instance

instance stable_fails (e : Exc) : (cfg.soloTraced p c).Stable (Fails cfg c p e) := by
  have hexposed : (cfg.soloTraced p c).Stable fun W : World ι × Trace ι => Exposed cfg c e W.2 :=
    Context.stable_trace (φ := Exposed cfg c e)
  unfold Fails
  infer_instance

/-- An operation that opens nothing and tries nothing. -/
theorem Accounted.step {entry : TraceEntry ι} (ha : Accounted p keep (w, tr))
    (hopen : opening entry = none) (htry : trying entry = none)
    (hserial : w'.serial p = w.serial p) (hopened : ∀ g ∈ w'.opened, g ∈ w.opened) :
    Accounted p keep (w', tr ++ [entry]) := by
  refine ⟨fun g hg => ?_, by simpa [hopen, htry] using ha.2⟩
  have hg' : .ok g ∈ opensOf tr := by simpa [hopen] using hg
  refine (ha.1 g hg').imp_right ?_
  rintro ⟨⟨ho, hs, hclosed⟩, hunlocked, hclose⟩
  refine ⟨⟨ho, by rw [hserial]; exact hs, fun hmem => hclosed (hopened g hmem)⟩, fun htried => ?_, ?_⟩
  · dsimp only at htried ⊢
    rw [triesOf_append, triesOf_singleton, htry, Option.toList_none, List.append_nil] at htried
    rw [unlocksOf_append]
    exact List.mem_append_left _ (hunlocked htried)
  · dsimp only
    rw [closesOf_append]
    exact List.mem_append_left _ hclose

/-- A handle that has been closed stays so. -/
theorem shut_step {o : Op ι} (hown : Own p w o) (hc : Change cfg p w o w')
    (hs : Shut p g w) : Shut p g w' := by
  obtain ⟨ho, hserial, hclosed⟩ := hs
  cases hc with
  | openAt path kind i hn =>
      refine ⟨ho, by simp; omega, ?_⟩
      simp only [openAt_toFs, Fs.openAt_opened, List.mem_cons, not_or]
      exact ⟨fun heq => by rw [heq] at hserial; simp at hserial, hclosed⟩
  | openEmptied path i hn => exact absurd rfl hown
  | create path kind i hn hi hkind =>
      refine ⟨ho, by simp; omega, ?_⟩
      simp only [openAt_toFs, Fs.openAt_opened, List.mem_cons, not_or]
      exact ⟨fun heq => by rw [heq] at hserial; simp at hserial, hclosed⟩
  | close h hmem content hcontent =>
      exact ⟨ho, hserial, fun hmem => hclosed (List.mem_filter.1 hmem).1⟩
  | _ => exact ⟨ho, hserial, hclosed⟩

end Basics

/-! ## The steps -/

section Steps

variable {cfg : Config ι} {c : Call} {p : ι} {h : Handle ι Path}

/-- What had been given back stays so while a new handle is tried. -/
theorem GivenBack.append {log tr : Trace ι} {g : Handle ι Path}
    {results : List (Except Exc Unit)} (hg : GivenBack g log)
    (htries : triesOf tr = results.map fun r => (h, r)) (hne : g ≠ h) : GivenBack g (log ++ tr) := by
  refine ⟨fun htried => ?_, ?_⟩
  · rw [triesOf_append, htries, List.mem_append] at htried
    rw [unlocksOf_append]
    rcases htried with htried | htried
    · exact List.mem_append_left _ (hg.1 htried)
    · obtain ⟨r, -, heq⟩ := List.mem_map.1 htried
      exact absurd (Prod.mk.inj heq).1.symm hne
  · rw [closesOf_append]
    exact List.mem_append_left _ hg.2

/-- The operations of one `acquire` come after those of others that gave back everything. -/
theorem Accounted.append {log tr : Trace ι} {w w' : World ι} {keep : Handle ι Path → Prop}
    {results : List (Except Exc Unit)} (hlog : Accounted p (fun _ => False) (w, log))
    (hshut : ∀ g, .ok g ∈ opensOf log → Shut p g w')
    (htries : triesOf tr = results.map fun r => (h, r))
    (hopens : results ≠ [] → .ok h ∈ opensOf tr) (hserial : w.serial p ≤ h.serial)
    (hnew : ∀ g, .ok g ∈ opensOf tr → keep g ∨ (Shut p g w' ∧ GivenBack g (log ++ tr))) :
    Accounted p keep (w', log ++ tr) := by
  refine ⟨fun g hg => ?_, fun attempt hattempt => ?_⟩
  · dsimp only at hg
    rw [opensOf_append, List.mem_append] at hg
    rcases hg with hg | hg
    · obtain ⟨⟨-, hlt, -⟩, hback⟩ := (hlog.1 g hg).resolve_left id
      refine Or.inr ⟨hshut g hg, hback.append htries ?_⟩
      rintro rfl
      dsimp only at hlt
      omega
    · exact hnew g hg
  · dsimp only at hattempt ⊢
    rw [triesOf_append, htries, List.mem_append] at hattempt
    rw [opensOf_append]
    rcases hattempt with hattempt | hattempt
    · exact List.mem_append_left _ (hlog.2 attempt hattempt)
    · obtain ⟨r, hr, rfl⟩ := List.mem_map.1 hattempt
      exact List.mem_append_right _ (hopens fun hnil => by rw [hnil] at hr; cases hr)

/-- The handle of an `acquire` that has failed has been given back. -/
theorem Tried.givenBack {log tr : Trace ι} {w : World ι} {results : List (Except Exc Unit)}
    (hlog : Accounted p (fun _ => False) (w, log)) (hserial : w.serial p ≤ h.serial)
    (htried : Tried h results [h] tr) (hfailed : .ok () ∉ results) : GivenBack h (log ++ tr) := by
  refine ⟨fun hlocked => ?_, ?_⟩
  · rw [triesOf_append, htried.tries, List.mem_append] at hlocked
    rcases hlocked with hlocked | hlocked
    · obtain ⟨⟨-, hlt, -⟩, -⟩ := (hlog.1 h (hlog.2 _ hlocked)).resolve_left id
      dsimp only at hlt
      omega
    · obtain ⟨r, hr, heq⟩ := List.mem_map.1 hlocked
      obtain ⟨-, rfl⟩ := Prod.mk.inj heq
      exact absurd hr hfailed
  · rw [closesOf_append, htried.closes]
    exact List.mem_append_right _ (List.mem_singleton_self _)

/-- `Lock.acquire` by an instance that has given back everything so far. -/
theorem acquire_accounted (hfaults : PlainFaults cfg) (self : Lock)
    (timeout checkInterval : Option Rat) (failWhenLocked : Option Bool) :
    Hoare (cfg.soloTraced p c) (EmptyHanded p) (self.acquire timeout checkInterval failWhenLocked)
      (HoldsOnly p) (Fails cfg c p) := by
  rintro ⟨w, log⟩ hw ⟨hfh, haccount, hall⟩
  have hacquire := ((Lock.acquire_attempts (c := c) (p := p) hfaults self timeout checkInterval
    failWhenLocked (w.serial p)).framed log).keeps
      (J := fun W => ∀ g, .ok g ∈ opensOf log → Shut p g W.1) ?_
  · refine (hacquire (w, log) hw ⟨⟨rfl, ⟨hfh, Nat.le_refl _⟩, rfl⟩, fun g hg => ?_⟩).mono ?_
    · exact ((hall.1 g hg).resolve_left id).1
    · rintro outcome ⟨w', log'⟩ - hends
      cases outcome with
      | ok h =>
          obtain ⟨⟨tr, rfl, ⟨-, hserial⟩, ⟨⟨hopen, hfh'⟩, m, -, hlock⟩, failed, -, htried⟩, hshut⟩ := hends
          refine ⟨⟨⟨hopen, hfh'⟩, m, hlock⟩, ⟨?_, ?_⟩, hall.append hshut htried.tries
            (fun _ => by rw [htried.opens]; exact List.mem_singleton_self _) hserial ?_⟩
          · dsimp only
            rw [triesOf_append, htried.tries, List.map_append]
            simp
          · dsimp only
            rw [accountOf_settled tr haccount, htried.account]
            simp
          · intro g hg
            rw [htried.opens, List.mem_singleton] at hg
            exact Or.inl (Except.ok.inj hg)
      | error e =>
          obtain ⟨⟨tr, rfl, hE⟩, hshut⟩ := hends
          rcases hE with ⟨hfh', hopens, htries, -, -, haccount'⟩ |
            ⟨h, ⟨-, hserial⟩, ⟨⟨hclosed, hfh'⟩, e', rfl, hmissed⟩ | ⟨-, habandoned, o, ho, hmay⟩⟩
          · refine Or.inl ⟨hfh', ?_, ?_⟩
            · dsimp only
              rw [accountOf_settled tr haccount, haccount']
            · have hnone : triesOf tr = ([] : List (Except Exc Unit)).map
                  fun r => (w.handle p self.filename 0, r) := htries
              refine hall.append hshut hnone
                (fun hne => absurd rfl hne) (Nat.le_refl _) fun g hg => ?_
              rcases hopens with ⟨hopens, -⟩ | ⟨hopens, -⟩ <;> simp [hopens] at hg
          · have hfailed : ∃ results, Tried h results [h] tr ∧ .ok () ∉ results := by
              rcases hmissed with ⟨-, -, htried⟩ | ⟨-, failed, e₀, hretried, -, -, htried⟩
              · exact ⟨[], htried, List.not_mem_nil⟩
              · refine ⟨_, htried, fun hmem => ?_⟩
                rcases List.mem_append.1 hmem with hmem | hmem
                · obtain ⟨-, e, heq, -⟩ := hretried _ hmem
                  cases heq
                · cases List.mem_singleton.1 hmem
            obtain ⟨results, htried, hfailed⟩ := hfailed
            refine Or.inl ⟨hfh', ?_, ?_⟩
            · dsimp only
              rw [accountOf_settled tr haccount, htried.account]
              simp
            · refine hall.append hshut htried.tries
                (fun _ => by rw [htried.opens]; exact List.mem_singleton_self _) hserial fun g hg => ?_
              rw [htried.opens, List.mem_singleton] at hg
              obtain rfl := Except.ok.inj hg
              exact Or.inr ⟨hclosed, htried.givenBack hall hserial hfailed⟩
          · refine Or.inr ⟨?_, o, ho.exposing, hmay⟩
            dsimp only
            rw [accountOf_settled tr haccount, habandoned.account]
            simp
  · intro W o r W' hW hown hJ hs g hg
    obtain ⟨⟨choice, hperform⟩, -⟩ := hs
    exact shut_step hown (Config.performOp_change hperform) (hJ g hg)

/-! ### The inode comparison -/

/-- The path named the inode of `h` at a moment at which `h` was locked. -/
def PassedComparison (filename : Path) (h : Handle ι Path) (tr : Trace ι) : Prop :=
  ∃ before w w' after, tr = before ++ ⟨w, .stat filename, .ok h.ino, w'⟩ :: after ∧
    (h, .ok ()) ∈ triesOf before ∧ w.lock h ≠ none ∧ w.names filename = some h.ino

/-- An operation that looks only. -/
theorem HoldsOnly.step {w w' : World ι} {tr : Trace ι} {entry : TraceEntry ι}
    (hP : HoldsOnly p h (w, tr)) (hfs : w'.toFs = w.toFs) (hfh : w'.fh = w.fh)
    (hdropped : w'.dropped = w.dropped) (hunseen : Unseen entry) :
    HoldsOnly p h (w', tr ++ [entry]) := by
  obtain ⟨⟨⟨⟨ho, hd, hmem⟩, hstored⟩, m, -, -, hlock⟩, ⟨htried, haccount⟩, hall⟩ := hP
  have hd' : w'.dropped h = false := by rw [hdropped]; exact hd
  refine ⟨⟨⟨⟨ho, hd', by rw [hfs]; exact hmem⟩, by rw [hfh]; exact hstored⟩, m, ho, hd', ?_⟩,
    ⟨?_, ?_⟩, hall.step hunseen.1 hunseen.2.1 (by rw [hfs]) fun g hg => by rw [hfs] at hg; exact hg⟩
  · rw [hfs]
    exact hlock
  · dsimp only
    rw [triesOf_append]
    exact List.mem_append_left _ htried
  · dsimp only at haccount ⊢
    rw [accountOf_append, account_unseen hunseen, haccount]

/-- A step after which nothing is closed has raised. -/
theorem HoldsOnly.exposed {w w' : World ι} {tr : Trace ι} {o : Op ι} {e : Exc}
    (hP : HoldsOnly p h (w, tr)) (ho : o = .fstat h ∨ ∃ filename, o = .stat filename)
    (he : e.isFileNotFound = false) (hmay : cfg.mayRaise c o e = true) :
    Fails cfg c p e (w', tr ++ [⟨w, o, .error e, w'⟩]) := by
  obtain ⟨-, ⟨-, haccount⟩, -⟩ := hP
  dsimp only at haccount
  have hexposing : exposing (⟨w, o, .error e, w'⟩ : TraceEntry ι) = true := by
    rcases ho with rfl | ⟨_, rfl⟩ <;> simp [exposing, he]
  have hquiet : opening (⟨w, o, .error e, w'⟩ : TraceEntry ι) = none ∧
      closing (⟨w, o, .error e, w'⟩ : TraceEntry ι) = none := by
    rcases ho with rfl | ⟨_, rfl⟩ <;> exact ⟨rfl, rfl⟩
  refine Or.inr ⟨?_, o, ?_, hmay⟩
  · simp [haccount, account, hquiet, hexposing]
  · rcases ho with rfl | ⟨_, rfl⟩ <;> trivial

/-- After one of the two look-ups has raised: the file is gone, or something is wrong. -/
def LookupRaises (cfg : Config ι) (c : Call) (p : ι) (h : Handle ι Path) (e : Exc)
    (W : World ι × Trace ι) : Prop :=
  if e.isFileNotFound = true then HoldsOnly p h W else Fails cfg c p e W

instance stable_lookupRaises (e : Exc) :
    (cfg.soloTraced p c).Stable (LookupRaises cfg c p h e) := by
  unfold LookupRaises
  split
  · exact stable_holdsOnly
  · exact stable_fails e

theorem lookup_raises {w w' : World ι} {tr : Trace ι} {o : Op ι} {e : Exc}
    (hP : HoldsOnly p h (w, tr)) (ho : o = .fstat h ∨ ∃ filename, o = .stat filename)
    (hfs : w'.toFs = w.toFs) (hfh : w'.fh = w.fh) (hdropped : w'.dropped = w.dropped)
    (hmay : e.isFileNotFound = false → cfg.mayRaise c o e = true) :
    LookupRaises cfg c p h e (w', tr ++ [⟨w, o, .error e, w'⟩]) := by
  unfold LookupRaises
  split
  · rename_i he
    refine hP.step hfs hfh hdropped ?_
    rcases ho with rfl | ⟨_, rfl⟩ <;> refine ⟨rfl, rfl, rfl, rfl, ?_⟩ <;> simp [exposing, he]
  · rename_i he
    exact hP.exposed ho (Bool.eq_false_iff.2 he) (hmay (Bool.eq_false_iff.2 he))

theorem fstat_accounted :
    Hoare (cfg.soloTraced p c) (HoldsOnly p h) (perform (.fstat h))
      (fun i W => i = h.ino ∧ HoldsOnly p h W) (LookupRaises cfg c p h) := by
  refine solo_rule (fun _ _ _ _ => trivial) ?_ ?_
  · intro w tr choice r w' _ _ hP hact
    have hopen : h ∈ w.opened := hP.1.1.1.2.2
    simp only [Config.act, Config.onOpen, hopen, if_true, Option.some.injEq, Prod.mk.injEq] at hact
    obtain ⟨rfl, rfl⟩ := hact
    exact ⟨rfl, hP.step rfl rfl rfl ⟨rfl, rfl, rfl, rfl, rfl⟩⟩
  · exact fun w tr e _ hP hmay =>
      lookup_raises hP (Or.inl rfl) rfl rfl rfl fun _ => hmay

theorem stat_accounted (filename : Path) :
    Hoare (cfg.soloTraced p c) (HoldsOnly p h) (perform (.stat filename))
      (fun i W => HoldsOnly p h W ∧ (i = h.ino → PassedComparison filename h W.2))
      (LookupRaises cfg c p h) := by
  have hstable : ∀ i, (cfg.soloTraced p c).Stable
      fun W : World ι × Trace ι => i = h.ino → PassedComparison filename h W.2 := fun i =>
    Context.stable_trace (φ := fun tr : Trace ι => i = h.ino → PassedComparison filename h tr)
  refine solo_rule (fun _ _ _ _ => trivial) ?_ ?_
  · intro w tr choice r w' _ _ hP hact
    simp only [Config.act] at hact
    split at hact
    · rename_i i hname
      simp only [Option.some.injEq, Prod.mk.injEq] at hact
      obtain ⟨rfl, rfl⟩ := hact
      refine ⟨hP.step rfl rfl rfl ⟨rfl, rfl, rfl, rfl, rfl⟩, fun hi => ?_⟩
      subst hi
      obtain ⟨⟨-, m, -, -, hlock⟩, ⟨htried, -⟩, -⟩ := hP
      exact ⟨tr, w, _, [], rfl, htried, by rw [hlock]; simp, hname⟩
    · simp only [Option.some.injEq, Prod.mk.injEq] at hact
      obtain ⟨rfl, rfl⟩ := hact
      exact lookup_raises hP (Or.inr ⟨_, rfl⟩) rfl rfl rfl fun he => by cases he
  · exact fun w tr e _ hP hmay => lookup_raises hP (Or.inr ⟨_, rfl⟩) rfl rfl rfl fun _ => hmay

/-- The comparison finds the handle current only if the path named its inode. -/
theorem fhMatchesPath_accounted (filename : Path) :
    Hoare (cfg.soloTraced p c) (HoldsOnly p h) (fhMatchesPath h filename)
      (fun matching W => HoldsOnly p h W ∧ (matching = true → PassedComparison filename h W.2))
      (Fails cfg c p) := by
  have hstable : ∀ matching : Bool, (cfg.soloTraced p c).Stable
      fun W : World ι × Trace ι => matching = true → PassedComparison filename h W.2 := fun matching =>
    Context.stable_trace (φ := fun tr : Trace ι => matching = true → PassedComparison filename h tr)
  have hstat : ∀ i, (cfg.soloTraced p c).Stable
      fun W : World ι × Trace ι => i = h.ino → PassedComparison filename h W.2 := fun i =>
    Context.stable_trace (φ := fun tr : Trace ι => i = h.ino → PassedComparison filename h tr)
  refine Hoare.tryCatch (F := LookupRaises cfg c p h) ?_ fun e => ?_
  · refine Hoare.bind fstat_accounted fun i => Hoare.of_fact fun hi => ?_
    subst hi
    refine Hoare.bind (stat_accounted filename) fun j => Hoare.pure fun W _ hW => ⟨hW.1, fun heq => ?_⟩
    exact hW.2 (beq_iff_eq.1 heq).symm
  · cases he : e.isFileNotFound with
    | true =>
        refine Hoare.pure fun W _ hW => ⟨?_, fun hfalse => by cases hfalse⟩
        rwa [LookupRaises, if_pos he] at hW
    | false =>
        refine Hoare.throw fun W _ hW => ?_
        rwa [LookupRaises, if_neg (by rw [he]; exact Bool.false_ne_true)] at hW

/-! ### Giving a handle back -/

/-- The handle has been unlocked, or that has been tried. -/
def Unlocked (p : ι) (h : Handle ι Path) (W : World ι × Trace ι) : Prop :=
  (Opened p h W.1 ∧ W.1.fh p = some h) ∧
    (h ∈ unlocksOf W.2 ∧ accountOf W.2 = ([h], false)) ∧ Accounted p (· = h) W

/-- It has been closed as well. -/
def Returned (p : ι) (h : Handle ι Path) (W : World ι × Trace ι) : Prop :=
  (Shut p h W.1 ∧ W.1.fh p = some h) ∧ accountOf W.2 = ([], false) ∧
    Accounted p (fun _ => False) W

instance stable_unlocked : (cfg.soloTraced p c).Stable (Unlocked p h) := by
  have hworld : (cfg.soloTraced p c).Stable fun W : World ι × Trace ι =>
      Opened p h W.1 ∧ W.1.fh p = some h :=
    Context.stable_world (P := fun w : World ι => Opened p h w ∧ w.fh p = some h)
  have htrace : (cfg.soloTraced p c).Stable fun W : World ι × Trace ι =>
      h ∈ unlocksOf W.2 ∧ accountOf W.2 = ([h], false) :=
    Context.stable_trace (φ := fun tr : Trace ι => h ∈ unlocksOf tr ∧ accountOf tr = ([h], false))
  unfold Unlocked
  infer_instance

instance stable_returned : (cfg.soloTraced p c).Stable (Returned p h) := by
  have hworld : (cfg.soloTraced p c).Stable fun W : World ι × Trace ι =>
      Shut p h W.1 ∧ W.1.fh p = some h :=
    Context.stable_world (P := fun w : World ι => Shut p h w ∧ w.fh p = some h)
  have htrace : (cfg.soloTraced p c).Stable fun W : World ι × Trace ι =>
      accountOf W.2 = ([], false) :=
    Context.stable_trace (φ := fun tr : Trace ι => accountOf tr = ([], false))
  unfold Returned
  infer_instance

theorem unlock_accounted (hfaults : PlainFaults cfg) :
    Hoare (cfg.soloTraced p c) (HoldsOnly p h) (perform (.unlock h)) (fun _ => Unlocked p h)
      (Caught (Unlocked p h) fun _ => Unlocked p h) := by
  have hunlocked : ∀ {w w' : World ι} {tr : Trace ι} {r : Except Exc Unit},
      w'.opened = w.opened → w'.serial = w.serial → w'.fh = w.fh → w'.dropped = w.dropped →
      HoldsOnly p h (w, tr) → Unlocked p h (w', tr ++ [⟨w, .unlock h, r, w'⟩]) := by
    rintro w w' tr r hopened hserial hfh hdropped ⟨⟨⟨⟨ho, hd, hmem⟩, hstored⟩, -⟩, ⟨-, haccount⟩, hall⟩
    dsimp only at haccount
    refine ⟨⟨⟨ho, by rw [hdropped]; exact hd, by rw [hopened]; exact hmem⟩, by rw [hfh]; exact hstored⟩,
      ⟨?_, ?_⟩, hall.step rfl rfl (by rw [hserial]) fun g hg => by rw [hopened] at hg; exact hg⟩
    · simp [unlocking]
    · simp [haccount, account, opening, closing, exposing]
  refine solo_rule (fun _ _ _ hP => hP.1.1.1.1) ?_ ?_
  · intro w tr choice r w' _ _ hP hact
    have hopen : h ∈ w.opened := hP.1.1.1.2.2
    simp only [Config.act, Config.onOpen, hopen, if_true, Option.some.injEq, Prod.mk.injEq] at hact
    obtain ⟨rfl, rfl⟩ := hact
    exact hunlocked rfl rfl rfl rfl hP
  · intro w tr e _ hP he
    rw [Caught, if_pos (hfaults _ _ _ he).1]
    exact hunlocked rfl rfl rfl rfl hP

theorem close_accounted (hfaults : PlainFaults cfg) :
    Hoare (cfg.soloTraced p c) (Unlocked p h) (perform (.close h)) (fun _ => Returned p h)
      (Caught (Returned p h) (Fails cfg c p)) := by
  have hclosed : ∀ {w : World ι} {tr : Trace ι} {content : List UInt8} {r : Except Exc Unit},
      w.Wf → Unlocked p h (w, tr) → Returned p h ((w.store h content []).discard h,
        tr ++ [⟨w, .close h, r, (w.store h content []).discard h⟩]) := by
    rintro w tr content r hw ⟨⟨⟨ho, hd, hmem⟩, hstored⟩, ⟨hunlocked, haccount⟩, hall⟩
    dsimp only at hunlocked haccount
    have hshut : Shut p h ((w.store h content []).discard h) := by
      refine ⟨ho, ?_, by simp⟩
      have := hw.fs.serial_lt hmem
      rwa [ho] at this
    have hsub : ∀ g ∈ ((w.store h content []).discard h).opened, g ∈ w.opened := by
      intro g hg
      simp only [discard_toFs, store_toFs, Fs.discard_opened, Fs.store_opened,
        List.mem_filter] at hg
      exact hg.1
    have hrest : Accounted p (· = h) ((w.store h content []).discard h,
        tr ++ [⟨w, .close h, r, (w.store h content []).discard h⟩]) := hall.step rfl rfl rfl hsub
    refine ⟨⟨hshut, hstored⟩, by simp [haccount, account, opening, closing], fun g hg => ?_, hrest.2⟩
    rcases hrest.1 g hg with rfl | hback
    · refine Or.inr ⟨hshut, fun _ => ?_, ?_⟩
      · simp [hunlocked]
      · simp [closing]
    · exact Or.inr hback
  refine solo_rule (fun _ _ _ hP => hP.1.1.1) ?_ ?_
  · intro w tr choice r w' hw _ hP hact
    have hopen : h ∈ w.opened := hP.1.1.2.2
    simp only [Config.act, hopen, if_true, Option.some.injEq, Prod.mk.injEq] at hact
    obtain ⟨rfl, rfl⟩ := hact
    exact hclosed hw hP
  · intro w tr e hw hP he
    have hopen : h ∈ w.opened := hP.1.1.2.2
    rw [Caught, if_pos (hfaults _ _ _ he).1]
    simp only [Config.afterFault, hopen, if_true]
    exact hclosed hw hP

/-- The `release` of a handle gives it back, whatever unlock and close do. -/
theorem release_accounted (hfaults : PlainFaults cfg) (lock : Lock) :
    Hoare (cfg.soloTraced p c) (HoldsOnly p h) lock.release (fun _ => EmptyHanded p)
      (Fails cfg c p) := by
  refine release_rule (R := fun g W => g = h ∧ HoldsOnly p h W)
    (U := fun g W => g = h ∧ Unlocked p h W) (V := fun g W => g = h ∧ Returned p h W)
    (I := fun _ => True) ?_ (fun g => ?_) (fun g => ?_) (fun g => ?_) (fun _ _ => trivial) ?_
  · refine solo_rule (fun _ _ _ _ => trivial) ?_ fun w tr e _ _ he => (hfaults _ _ _ he).2.elim
    intro w tr choice r w' _ _ hP hact
    simp only [Config.act, Option.some.injEq, Prod.mk.injEq] at hact
    obtain ⟨rfl, rfl⟩ := hact
    have hstored : w.fh p = some h := hP.1.1.2
    rw [hstored]
    exact ⟨rfl, hP.step rfl rfl rfl ⟨rfl, rfl, rfl, rfl, rfl⟩⟩
  · refine Hoare.of_fact fun hg => ?_
    subst hg
    refine (unlock_accounted hfaults).conseq (fun _ _ hP => hP) (fun _ _ _ hU => ⟨rfl, hU⟩) ?_
    intro e W _ hE
    unfold Caught at hE ⊢
    split
    · rename_i he
      rw [if_pos he] at hE
      exact ⟨rfl, hE⟩
    · rename_i he
      rw [if_neg he] at hE
      exact ⟨trivial, rfl, hE⟩
  · refine Hoare.of_fact fun hg => ?_
    subst hg
    refine (close_accounted hfaults).conseq (fun _ _ hP => hP) (fun _ _ _ hV => ⟨rfl, hV⟩) ?_
    intro e W _ hE
    unfold Caught at hE ⊢
    split
    · rename_i he
      rw [if_pos he] at hE
      exact ⟨rfl, hE⟩
    · rename_i he
      rwa [if_neg he] at hE
  · refine Hoare.of_fact fun _ => ?_
    refine solo_rule (fun _ _ _ _ h' heq => by cases heq) ?_
      fun w tr e _ _ he => (hfaults _ _ _ he).2.elim
    intro w tr choice r w' _ _ hP hact
    simp only [Config.act, Option.some.injEq, Prod.mk.injEq] at hact
    obtain ⟨rfl, rfl⟩ := hact
    obtain ⟨-, haccount, hall⟩ := hP
    dsimp only at haccount
    refine ⟨by simp, ?_, hall.step rfl rfl rfl fun _ hg => hg⟩
    simp [haccount, account, opening, closing, exposing]
  · exact fun e W _ _ hZ => Or.inl hZ

/-! ### The whole call -/

/-- Waiting with empty hands, and failing to. -/
theorem pause_accounted {o : Op ι} (ho : (∃ timeout, o = .attempts timeout) ∨
      ∃ i checkInterval, o = .sleep i checkInterval) {φ : Prop} :
    Hoare (cfg.soloTraced p c) (fun W => φ ∧ EmptyHanded p W) (perform o)
      (fun _ W => φ ∧ EmptyHanded p W) (Fails cfg c p) := by
  have hkeep : ∀ {w tr} {r : Except Exc (Val o)}, EmptyHanded p (w, tr) →
      EmptyHanded p (w, tr ++ [⟨w, o, r, w⟩]) := by
    rintro w tr r ⟨hfh, haccount, hall⟩
    dsimp only at haccount
    have hquiet : opening (⟨w, o, r, w⟩ : TraceEntry ι) = none ∧
        trying (⟨w, o, r, w⟩ : TraceEntry ι) = none ∧
        closing (⟨w, o, r, w⟩ : TraceEntry ι) = none := by
      rcases ho with ⟨_, rfl⟩ | ⟨_, _, rfl⟩ <;> exact ⟨rfl, rfl, rfl⟩
    refine ⟨hfh, ?_, hall.step hquiet.1 hquiet.2.1 rfl fun _ hg => hg⟩
    simp [haccount, account, hquiet]
  have hsame : ∀ w : World ι, Config.afterFault w o = w := by
    rcases ho with ⟨_, rfl⟩ | ⟨_, _, rfl⟩ <;> exact fun _ => rfl
  refine solo_rule (fun w tr _ _ => ?_) ?_ ?_
  · rcases ho with ⟨_, rfl⟩ | ⟨_, _, rfl⟩ <;> trivial
  · intro w tr choice r w' _ _ hP hact
    have hstay : (∃ v, r = .ok v) ∧ w' = w := by
      rcases ho with ⟨_, rfl⟩ | ⟨_, _, rfl⟩
      · simp only [Config.act, Option.ite_none_left_eq_some, Option.some.injEq,
          Prod.mk.injEq] at hact
        exact ⟨⟨_, hact.2.1.symm⟩, hact.2.2.symm⟩
      · simp only [Config.act, Option.some.injEq, Prod.mk.injEq] at hact
        exact ⟨⟨_, hact.1.symm⟩, hact.2.symm⟩
    obtain ⟨⟨v, rfl⟩, rfl⟩ := hstay
    exact ⟨hP.1, hkeep hP.2⟩
  · intro w tr e _ hP _
    rw [hsame]
    exact Or.inl (hkeep hP.2)

/-- What is returned has passed the comparison while it was locked; everything else has
been given back. -/
theorem acquireVerified_accounted (hfaults : PlainFaults cfg) (lock : Lock) (filename : Path)
    (timeout checkInterval : Option Rat) (failWhenLocked : Option Bool) :
    Hoare (cfg.soloTraced p c) (EmptyHanded p)
      (TemporaryFileLock.acquireVerified lock filename timeout checkInterval failWhenLocked)
      (fun h W => HoldsOnly p h W ∧ PassedComparison filename h W.2) (Fails cfg c p) := by
  have hcompared : ∀ h, (cfg.soloTraced p c).Stable
      fun W : World ι × Trace ι => PassedComparison filename h W.2 := fun h =>
    Context.stable_trace (φ := PassedComparison filename h)
  refine Hoare.bind (R := Ends (fun h W => HoldsOnly p h W ∧ PassedComparison filename h W.2)
    fun e W => e = .alreadyLocked ∧ EmptyHanded p W) (timeoutGenerator_rule ?_ ?_ ?_ ?_) ?_
  · refine Hoare.bind (acquire_accounted hfaults lock timeout checkInterval failWhenLocked)
      fun h => Hoare.bind (fhMatchesPath_accounted filename) fun matching => ?_
    cases matching with
    | true => exact Hoare.pure fun W _ hW => ⟨hW.1, hW.2 rfl⟩
    | false =>
        refine Hoare.bind ((release_accounted hfaults lock).of_pre fun W _ hW => hW.1) fun _ => ?_
        exact Hoare.pure fun W _ hW => ⟨rfl, hW⟩
  · exact fun e W _ hW => hW.2
  · exact fun e => pause_accounted (Or.inl ⟨_, rfl⟩)
  · exact fun i e => pause_accounted (Or.inr ⟨_, _, rfl⟩)
  · intro outcome
    cases outcome with
    | ok h => exact Hoare.pure fun W _ hW => hW
    | error e => exact Hoare.throw fun W _ hW => Or.inl hW.2

theorem PassedComparison.append {filename : Path} {tr : Trace ι} (hc : PassedComparison filename h tr)
    (rest : Trace ι) : PassedComparison filename h (tr ++ rest) := by
  obtain ⟨before, w, w', after, rfl, hlocked⟩ := hc
  exact ⟨before, w, w', after ++ rest, by simp, hlocked⟩

/-- `TemporaryFileLock.acquire`. -/
theorem temporaryAcquire_accounted (hfaults : PlainFaults cfg) (self : TemporaryFileLock)
    (timeout checkInterval : Option Rat) (failWhenLocked : Option Bool) :
    Hoare (cfg.soloTraced p c) (EmptyHanded p) (self.acquire timeout checkInterval failWhenLocked)
      (fun h W => HoldsOnly p h W ∧ PassedComparison self.filename h W.2) (Fails cfg c p) := by
  have hcompared : ∀ h, (cfg.soloTraced p c).Stable
      fun W : World ι × Trace ι => PassedComparison self.filename h W.2 := fun h =>
    Context.stable_trace (φ := PassedComparison self.filename h)
  refine Hoare.bind (acquireVerified_accounted hfaults self.toLock self.filename timeout
    checkInterval failWhenLocked) fun h => ?_
  refine Hoare.bind (R := fun _ W => HoldsOnly p h W ∧ PassedComparison self.filename h W.2) ?_
    fun _ => Hoare.pure fun W _ hW => hW
  refine solo_rule (fun _ _ _ _ => trivial) ?_ fun w tr e _ _ he => (hfaults _ _ _ he).2.elim
  intro w tr choice r w' _ _ hP hact
  simp only [Config.act, Option.some.injEq, Prod.mk.injEq] at hact
  obtain ⟨rfl, rfl⟩ := hact
  exact ⟨hP.1.step rfl rfl rfl ⟨rfl, rfl, rfl, rfl, rfl⟩, hP.2.append _⟩

end Steps

end Portalocker
