import Historian.Proofs.Log.Retention
import Historian.Proofs.Value.Double
import Mathlib.Data.List.DropRight

/-!
# Logs that follow every change

A running log of changes whose increment is zero (`TrendLog.TakesAll`) takes every sample of its
point whose number is apart from the last number it took (`Sample.apart`).  Samples that are
shown to it one after the other stand in its buffer in the order in which they were shown,
behind the records that were there, as far as there is room (`TrendLog.records_observed`).
Finite numbers are always apart, so of finite samples none is missing
(`Sample.distinct_of_finite`).
-/

namespace Historian

/-! ## Samples that can be told apart -/

namespace Sample

/-- The difference from the last number is a number. -/
def apart (last : Option Float) (sample : Sample) : Bool :=
  match last, sample.datum.number? with
  | some previous, some value => !(value - previous).isNaN
  | _, _ => true

/-- Of samples that are shown one after the other, those that are apart from the last number
among those before. -/
def distinct : (last : Option Float) → List (Sample × Reading) → List (Sample × Reading)
  | _, [] => []
  | last, shown :: rest =>
      if shown.1.apart last then shown :: distinct (shown.1.datum.number?.or last) rest
      else distinct last rest

/-- The sample stands for a finite number, or for none. -/
def Finite (sample : Sample) : Prop :=
  ∀ value, sample.datum.number? = some value → value.isFinite = true

section

variable {last : Option Float} {sample : Sample}

theorem apart_of_finite (hlast : ∀ value, last = some value → value.isFinite = true)
    (hsample : sample.Finite) : sample.apart last = true := by
  cases last with
  | none => rfl
  | some previous =>
      cases hvalue : sample.datum.number? with
      | none => simp only [apart, hvalue]
      | some value =>
          simp only [apart, hvalue]
          rw [Double.isNaN_sub (hsample value hvalue) (hlast previous rfl)]
          rfl

/-- **Finite samples are all apart.** -/
theorem distinct_of_finite {shown : List (Sample × Reading)}
    (hlast : ∀ value, last = some value → value.isFinite = true)
    (hshown : ∀ pair ∈ shown, pair.1.Finite) : distinct last shown = shown := by
  induction shown generalizing last with
  | nil => rfl
  | cons first rest ih =>
      obtain ⟨hfirst, hrest⟩ := List.forall_mem_cons.mp hshown
      rw [distinct, if_pos (apart_of_finite hlast hfirst), ih ?_ hrest]
      intro value hvalue
      rcases Option.or_eq_some_iff.mp hvalue with hnew | ⟨-, hold⟩
      · exact hfirst value hnew
      · exact hlast value hold

end

end Sample

/-! ## Records behind others -/

/-- What is kept of a list does not depend on what had to go before. -/
theorem rtake_rtake_append {α : Type} (count : Nat) (before more : List α) :
    (before.rtake count ++ more).rtake count = (before ++ more).rtake count := by
  unfold List.rtake
  rw [List.drop_append, List.drop_append, List.drop_drop]
  simp only [List.length_append, List.length_drop]
  congr 2 <;> omega

namespace Ring

/-- A buffer that has been through a run holds the last of its records and of those that are
pushed behind them. -/
theorem records_run_push (capacity : Nat) (acts : List Act) (records : List LogRecord) :
    (((ofCapacity capacity).run acts).run (records.map .push)).records =
      (((ofCapacity capacity).run acts).records ++ records).rtake (max capacity 1) := by
  have hbefore := (tracks_run capacity acts).records_eq_drop_recent
  have hafter := (tracks_run capacity (acts ++ records.map .push)).records_eq_drop_recent
  have hrun : ((ofCapacity capacity).run acts).run (records.map .push) =
      (ofCapacity capacity).run (acts ++ records.map .push) := List.foldl_append.symm
  have hrecent : (History.of (acts ++ records.map .push)).recent =
      (History.of acts).recent ++ records := by
    rw [History.of, List.foldl_append, History.foldl_push]
    exact List.drop_append_of_le_length (tracks_run capacity acts).cleared_le
  rw [hrun, hafter, hbefore, hrecent]
  exact (rtake_rtake_append _ _ _).symm

end Ring

/-! ## What a log takes -/

namespace TrendLog

/-- A log that runs and follows a point, has an increment of zero, and drops what is oldest. -/
structure TakesAll (log : TrendLog) (point : PointRef) : Prop where
  follows : log.follows point = true
  increment : (log.config.increment == 0) = true
  stopWhenFull : log.config.stopWhenFull = false

/-- The steps of a log that is shown samples of a point. -/
def observations (point : PointRef) (shown : List (Sample × Reading)) : List Step :=
  shown.map fun pair => .observe point pair.1 pair.2

namespace TakesAll

variable {log : TrendLog} {point : PointRef} (htakes : log.TakesAll point)
include htakes

theorem exceeds_eq (sample : Sample) : log.exceeds sample = sample.apart log.lastValue := by
  cases hlast : log.lastValue with
  | none => simp only [exceeds, Sample.apart, hlast]
  | some previous =>
      cases hvalue : sample.datum.number? with
      | none => simp only [exceeds, Sample.apart, hlast, hvalue]
      | some value =>
          simp only [exceeds, Sample.apart, hlast, hvalue]
          rw [Bool.eq_iff_iff, decide_eq_true_iff, Double.abs_ge_iff htakes.increment]
          simp

theorem observe_of_apart {sample : Sample} (now : Reading)
    (hapart : sample.apart log.lastValue = true) :
    (log.observe point sample now).1 = log.storing sample now := by
  have hrunning : log.running = true := log.running_of_follows htakes.follows
  have hroom : log.refuses = false := by rw [refuses, htakes.stopWhenFull, Bool.false_and]
  rw [observe, htakes.follows, htakes.exceeds_eq, hapart, record_eq, hrunning, hroom]
  rfl

theorem observe_of_not_apart {sample : Sample} (now : Reading)
    (hapart : sample.apart log.lastValue = false) : (log.observe point sample now).1 = log := by
  simp only [observe, htakes.exceeds_eq, hapart, Bool.and_false, Bool.false_eq_true, if_false]

/-- **Of the samples that are shown, those that are apart are pushed, in the order in which they
are shown.** -/
theorem ring_observed (shown : List (Sample × Reading)) :
    (log.run (observations point shown)).ring =
      log.ring.run (((Sample.distinct log.lastValue shown).map
        fun pair => pair.1.recordAt pair.2).map .push) := by
  induction shown generalizing log with
  | nil => rfl
  | cons first rest ih =>
      obtain ⟨sample, now⟩ := first
      change ((log.observe point sample now).1.run (observations point rest)).ring = _
      cases hapart : sample.apart log.lastValue with
      | false => simp only [htakes.observe_of_not_apart now hapart, ih htakes, Sample.distinct,
          hapart, Bool.false_eq_true, if_false]
      | true =>
          have htook := htakes.observe_of_apart now hapart
          have hlater : (log.observe point sample now).1.TakesAll point := by
            rw [htook]
            exact ⟨htakes.follows, htakes.increment, htakes.stopWhenFull⟩
          rw [ih hlater, htook, Sample.distinct, if_pos hapart]
          rfl

/-- **The buffer holds what was there and what was taken, as far as there is room.** -/
theorem records_observed (huse : log.InUse) (shown : List (Sample × Reading)) :
    (log.run (observations point shown)).ring.records =
      (log.ring.records ++ (Sample.distinct log.lastValue shown).map
        fun pair => pair.1.recordAt pair.2).rtake log.config.bufferSize.toNat := by
  obtain ⟨acts, hacts⟩ := huse.ring
  have hpos : log.config.bufferSize.toNat ≠ 0 :=
    fun hzero => huse.size_ne_zero (UInt32.toNat_inj.mp hzero)
  have hsize : max log.config.bufferSize.toNat 1 = log.config.bufferSize.toNat := by omega
  rw [htakes.ring_observed, hacts, Ring.records_run_push, hsize]

end TakesAll

end TrendLog

end Historian
