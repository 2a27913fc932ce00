import Mathlib.Algebra.Order.Floor.Semiring
import Mathlib.Data.Rat.Floor
import Mathlib.Tactic.Linarith
import Portalocker.Utils.World
set_option autoImplicit false

/-!
# The schedule of the attempts

`_timeout_generator` with its clock.  Everywhere else the retry loop asks the clock once
how many more attempts there will be; here the generator runs next to a clock and a
caller, which are any functions of a state of theirs, and the number of attempts is what
comes out.  The measure is the time passed: every round of the loop ends at least one
period later than the one before, whatever the attempts take.
-/

namespace Portalocker

/-- What the generator runs in: a clock, and a caller that makes an attempt whenever it is
handed a number.  The clock never runs backwards, and a sleep takes at least as long as it
is asked to. -/
structure Surroundings (σ : Type) where
  now : σ → Rat
  /-- `time.perf_counter`, which answers with the time afterwards -/
  perfCounter : σ → σ
  /-- `time.sleep` -/
  sleep : Rat → σ → σ
  /-- what the caller does between two numbers -/
  attempt : Nat → σ → σ
  now_perfCounter : ∀ s, now s ≤ now (perfCounter s)
  now_sleep : ∀ d s, now s + d ≤ now (sleep d s)
  now_attempt : ∀ i s, now s ≤ now (attempt i s)

/-- What has come out of a generator: when its clock started, and its numbers with the
times at which they were handed out. -/
structure Timetable where
  startTime : Rat
  attempts : List (Nat × Rat)

namespace Surroundings

variable {σ : Type} (env : Surroundings σ)

/-- The loop of the generator after attempt `i`. -/
def rounds (timeout checkInterval startTime : Rat) :
    (fuel : Nat) → Nat → σ → Option (List (Nat × Rat))
  | 0, _, _ => none
  | fuel + 1, i, s =>
      let tested := env.perfCounter s
      if startTime + timeout > env.now tested then
        let measured := env.perfCounter (env.attempt (i + 1) tested)
        let sinceStartTime := env.now measured - startTime
        let slept := env.sleep (max (1 / 1000) (((i + 1 : Nat) : Rat) * checkInterval -
          sinceStartTime)) measured
        (rounds timeout checkInterval startTime fuel (i + 1) slept).map
          ((i + 1, env.now tested) :: ·)
      else some []

/-- `_timeout_generator`, when the caller always asks for the next attempt. -/
def timeoutGenerator (timeout checkInterval : Rat) (fuel : Nat) (s : σ) : Option Timetable :=
  let started := env.perfCounter (env.attempt 0 s)
  (env.rounds timeout checkInterval (env.now started) fuel 0 started).map fun later =>
    ⟨env.now started, (0, env.now s) :: later⟩

/-- The shortest time between two rounds. -/
def period (checkInterval : Rat) : Rat := max checkInterval (1 / 1000)

theorem period_pos (checkInterval : Rat) : 0 < period checkInterval :=
  lt_max_of_lt_right (by norm_num)

variable {env} {timeout checkInterval startTime : Rat}

/-- One round takes the loop to its next point of the schedule. -/
theorem now_round {i : Nat} {s : σ}
    (hs : startTime + i * period checkInterval ≤ env.now s) :
    startTime + (i + 1 : Nat) * period checkInterval ≤
      env.now (env.sleep (max (1 / 1000) (((i + 1 : Nat) : Rat) * checkInterval -
        (env.now s - startTime))) s) := by
  have hslept := env.now_sleep (max (1 / 1000) (((i + 1 : Nat) : Rat) * checkInterval -
    (env.now s - startTime))) s
  have hfloor := le_max_left (1 / 1000 : Rat) (((i + 1 : Nat) : Rat) * checkInterval -
    (env.now s - startTime))
  have hschedule := le_max_right (1 / 1000 : Rat) (((i + 1 : Nat) : Rat) * checkInterval -
    (env.now s - startTime))
  rw [Nat.cast_add_one] at hslept hfloor hschedule ⊢
  unfold period at hs ⊢
  rcases le_total checkInterval (1 / 1000) with hsmall | hlarge
  · -- the floor of a millisecond decides
    rw [max_eq_right hsmall] at hs ⊢
    linarith
  · rw [max_eq_left hlarge]
    linarith

/-- The rounds that are left: `r` of them fit before the deadline. -/
theorem rounds_spec (r : Nat) {i : Nat} {s : σ}
    (hr : timeout ≤ ((i + r : Nat) : Rat) * period checkInterval)
    (hs : startTime + i * period checkInterval ≤ env.now s) :
    ∃ later, (∀ fuel, r < fuel →
        env.rounds timeout checkInterval startTime fuel i s = some later) ∧
      later.map Prod.fst = List.range' (i + 1) later.length ∧ later.length ≤ r ∧
      ∀ (j : Nat) (t : Rat), (j + 1, t) ∈ later → startTime + j * period checkInterval ≤ t := by
  induction r generalizing i s with
  | zero =>
      -- the deadline has passed
      have hover : ¬ startTime + timeout > env.now (env.perfCounter s) := by
        have htested := hs.trans (env.now_perfCounter s)
        rw [Nat.add_zero] at hr
        linarith
      refine ⟨[], fun fuel hfuel => ?_, rfl, Nat.le_refl 0, by simp⟩
      obtain ⟨fuel, rfl⟩ := Nat.exists_eq_succ_of_ne_zero (Nat.ne_of_gt hfuel)
      simp [rounds, hover]
  | succ r ih =>
      have htested := hs.trans (env.now_perfCounter s)
      by_cases hmore : startTime + timeout > env.now (env.perfCounter s)
      · have hmeasured := htested.trans ((env.now_attempt (i + 1) (env.perfCounter s)).trans
          (env.now_perfCounter _))
        have hr' : timeout ≤ ((i + 1 + r : Nat) : Rat) * period checkInterval := by
          rwa [Nat.add_right_comm, Nat.add_assoc]
        obtain ⟨later, hrun, hnumbers, hlength, htimes⟩ := ih hr' (now_round hmeasured)
        refine ⟨(i + 1, env.now (env.perfCounter s)) :: later, fun fuel hfuel => ?_, ?_, ?_, ?_⟩
        · obtain ⟨fuel, rfl⟩ := Nat.exists_eq_succ_of_ne_zero (Nat.ne_zero_of_lt hfuel)
          simp only [rounds, if_pos hmore]
          rw [hrun fuel (by omega)]
          rfl
        · rw [List.map_cons, hnumbers, List.length_cons, List.range'_succ]
        · rw [List.length_cons]
          omega
        · intro j t hmem
          rcases List.mem_cons.1 hmem with heq | hlater
          · obtain ⟨hj, rfl⟩ := Prod.mk.inj heq
            obtain rfl : j = i := by omega
            exact htested
          · exact htimes j t hlater
      · refine ⟨[], fun fuel hfuel => ?_, rfl, Nat.zero_le _, by simp⟩
        obtain ⟨fuel, rfl⟩ := Nat.exists_eq_succ_of_ne_zero (Nat.ne_zero_of_lt hfuel)
        simp [rounds, hmore]

/-- The number of later attempts is one that the clock of the machine may answer with. -/
theorem later_attempts_allowed {ι : Type} [DecidableEq ι] (cfg : Config ι) (p : ι) (w : World ι)
    {fuel : Nat} {s : σ} {timetable : Timetable}
    (h : env.timeoutGenerator timeout checkInterval fuel s = some timetable) :
    cfg.act { count := timetable.attempts.length - 1 } p w (.attempts timeout) =
      some (.ok (timetable.attempts.length - 1), w) := by
  simp only [timeoutGenerator, Option.map_eq_some_iff] at h
  obtain ⟨later, hrun, rfl⟩ := h
  have hnone : timeout ≤ 0 → later = [] := by
    intro hover
    cases fuel with
    | zero => cases hrun
    | succ fuel =>
        have htested := env.now_perfCounter (env.perfCounter (env.attempt 0 s))
        have hdone : ¬ env.now (env.perfCounter (env.attempt 0 s)) + timeout >
            env.now (env.perfCounter (env.perfCounter (env.attempt 0 s))) := by linarith
        simpa [rounds, hdone] using hrun.symm
  simp only [Config.act, List.length_cons, Nat.add_sub_cancel]
  exact if_neg fun hcount => hcount.2 (by rw [hnone hcount.1]; rfl)

end Surroundings

/-- The generator ends, whatever the attempts take: it hands out 0, 1, 2, … without gaps,
attempt `i + 1` not before `i` periods after its clock started, and at most one attempt
more than periods fit into the timeout. -/
theorem attempts_follow_schedule {σ : Type} (env : Surroundings σ) (timeout checkInterval : Rat)
    (s : σ) :
    ∃ timetable : Timetable,
      (∀ fuel, ⌈timeout / Surroundings.period checkInterval⌉₊ < fuel →
        env.timeoutGenerator timeout checkInterval fuel s = some timetable) ∧
      timetable.attempts.map Prod.fst = List.range timetable.attempts.length ∧
      1 ≤ timetable.attempts.length ∧
      (∀ (i : Nat) (t : Rat), 1 ≤ i → (i + 1, t) ∈ timetable.attempts →
        timetable.startTime + i * Surroundings.period checkInterval ≤ t) ∧
      timetable.attempts.length ≤ 1 + ⌈timeout / Surroundings.period checkInterval⌉₊ := by
  have hfit : timeout ≤ ((0 + ⌈timeout / Surroundings.period checkInterval⌉₊ : Nat) : Rat) *
      Surroundings.period checkInterval := by
    rw [Nat.zero_add, ← div_le_iff₀ (Surroundings.period_pos checkInterval)]
    exact Nat.le_ceil _
  have hstart : env.now (env.perfCounter (env.attempt 0 s)) +
      ((0 : Nat) : Rat) * Surroundings.period checkInterval ≤
        env.now (env.perfCounter (env.attempt 0 s)) := by simp
  obtain ⟨later, hrun, hnumbers, hlength, htimes⟩ := Surroundings.rounds_spec _ hfit hstart
  refine ⟨⟨env.now (env.perfCounter (env.attempt 0 s)), (0, env.now s) :: later⟩,
    fun fuel hfuel => ?_, ?_, ?_, ?_, ?_⟩
  · simp [Surroundings.timeoutGenerator, hrun fuel hfuel]
  · rw [List.map_cons, hnumbers, List.length_cons, List.range_eq_range', List.range'_succ]
  · simp
  · intro i t _ hmem
    rcases List.mem_cons.1 hmem with heq | hlater
    · cases heq
    · exact htimes i t hlater
  · rw [List.length_cons]
    omega

/-- A clock that only attempts and sleeps move: an attempt takes two fifths of a second. -/
def stopwatch : Surroundings Rat where
  now s := s
  perfCounter s := s
  sleep d s := s + max d 0
  attempt _ s := s + 2 / 5
  now_perfCounter _ := le_refl _
  now_sleep d s := by
    have hd := le_max_left d 0
    linarith
  now_attempt _ s := by linarith

/-- Every attempt but the first takes most of its interval. -/
theorem attempts_follow_schedule_run :
    ∃ timetable : Timetable, stopwatch.timeoutGenerator 1 (1 / 2) 3 0 = some timetable ∧
      timetable.startTime = 2 / 5 ∧ timetable.attempts = [(0, 0), (1, 2 / 5), (2, 9 / 10)] ∧
      timetable.attempts.length ≤ 1 + ⌈(1 : Rat) / Surroundings.period (1 / 2)⌉₊ ∧
      ∀ (i : Nat) (t : Rat), 1 ≤ i → (i + 1, t) ∈ timetable.attempts →
        timetable.startTime + i * Surroundings.period (1 / 2) ≤ t := by
  have hobserve : (stopwatch.timeoutGenerator 1 (1 / 2) 3 0).map (fun timetable =>
      (timetable.startTime, timetable.attempts)) =
      some (2 / 5, [(0, 0), (1, 2 / 5), (2, 9 / 10)]) := by decide +kernel
  obtain ⟨timetable, hends, -, -, htimes, hlength⟩ :=
    attempts_follow_schedule stopwatch 1 (1 / 2) 0
  have hrounds : ⌈(1 : Rat) / Surroundings.period (1 / 2)⌉₊ < 3 := by
    norm_num [Surroundings.period]
  rw [hends 3 hrounds, Option.map_some] at hobserve
  obtain ⟨hstart, hattempts⟩ := Prod.mk.inj (Option.some.inj hobserve)
  exact ⟨timetable, hends 3 hrounds, hstart, hattempts, hlength, htimes⟩

end Portalocker
