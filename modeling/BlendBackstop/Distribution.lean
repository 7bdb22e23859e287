import Mathlib.Algebra.BigOperators.Group.List
import BlendBackstop.Spec

/-!
# The distribution clock and the backfill ledger

`distribute` keeps three entries of its own: `last_distribution_time`, `backfill_status` and
`backfill_emissions`.  No other operation writes them (`step_sameDistribution`), so every
property here is an induction over the `distribute` calls of a run.

* `backfill_status_forward`: the status goes from `None` to `Some(true)` on a backfill run
  and from `Some(true)` to `Some(false)` on an acknowledged one, and nowhere else; so the
  reset branch of `distribute` is taken at most once.
* `backfill_accounting`: `backfill_emissions` is the sum of what backfill runs credited, and
  stays within `MAX_BACKFILLED_EMISSIONS`.
* `distribution_clock`: when the emitter's answers never go back in time, the last
  distribution time never decreases once set, every credited run advances it by exactly what
  it credited, and the credited intervals are disjoint.
-/

namespace BlendBackstop

variable {c : Config}

/-- The emitter time a `distribute` call counts up to: the emitter's answer, or the ledger
time on a backfill run. -/
def Entry.emitterTime (e : Entry) : Option Nat :=
  match e.call.op with
  | .distribute (some r) => some r
  | .distribute none => some e.call.ledger.timestamp
  | _ => none

def Entry.distributed (e : Entry) : Int :=
  match e.call.op, e.ret with
  | .distribute _, .emissions n => n
  | _, _ => 0

def Entry.backfilled (e : Entry) : Int :=
  match e.call.op, e.ret with
  | .distribute none, .emissions n => n
  | _, _ => 0

theorem step_distribute_cases {s s' : State} {call : Call} {r : Ret}
    (h : step c s call = .ok (s', r)) :
    (∃ reply n, call.op = .distribute reply ∧ r = .emissions n ∧
      distribute c s call.ledger.timestamp reply = .ok (s', n)) ∨
    ((∀ reply, call.op ≠ .distribute reply) ∧ SameDistribution s s') := by
  by_cases hd : ∃ reply, call.op = .distribute reply
  · obtain ⟨reply, hop⟩ := hd
    obtain ⟨n, rfl, hd⟩ := step_of_distribute hop h
    exact .inl ⟨reply, n, hop, rfl, hd⟩
  · push_neg at hd
    exact .inr ⟨hd, step_sameDistribution h hd⟩

theorem Entry.distributed_of_distribute {e : Entry} {reply : Option Nat} {n : Int}
    (hop : e.call.op = .distribute reply) (hr : e.ret = .emissions n) :
    e.distributed = n ∧ e.backfilled = if reply = none then n else 0 := by
  simp only [Entry.distributed, Entry.backfilled, hop, hr]
  cases reply <;> simp

theorem Entry.distributed_of_ne {e : Entry} (hop : ∀ reply, e.call.op ≠ .distribute reply) :
    e.distributed = 0 ∧ e.backfilled = 0 := by
  unfold Entry.distributed Entry.backfilled
  constructor <;> split <;> simp_all

@[simp] theorem emitterRead_isBackfill (status : Option Bool) (now : Nat) (reply : Option Nat) :
    (emitterRead status now reply).isBackfill = reply.isNone := by
  cases reply <;> simp only [emitterRead] <;> split <;> rfl

@[simp] theorem emitterRead_emitterLastDistribution (status : Option Bool) (now : Nat)
    (reply : Option Nat) : (emitterRead status now reply).emitterLastDistribution = reply.getD now := by
  cases reply <;> simp only [emitterRead] <;> split <;> rfl

theorem emitterRead_needsReset {status : Option Bool} {now : Nat} {reply : Option Nat}
    (h : (emitterRead status now reply).needsReset = true) : ∃ t, reply = some t := by
  cases reply with
  | none => simp only [emitterRead] at h; split at h <;> cases h
  | some t => exact ⟨t, rfl⟩

/-! ### The backfill status -/

/-- How a call may change the backfill status: not at all, from `None` to `Some(true)` on a backfill
run, or from `Some(true)` to `Some(false)` when the emitter answers. -/
def StatusStep (e : Entry) : Prop :=
  e.post.backfillStatus = e.pre.backfillStatus ∨
  (e.pre.backfillStatus = none ∧ e.post.backfillStatus = some true ∧ e.call.op = .distribute none) ∨
  (e.pre.backfillStatus = some true ∧ e.post.backfillStatus = some false ∧
    ∃ t, e.call.op = .distribute (some t))

/-- The call took the reset branch of `distribute`: the emitter answered after a backfill run,
and a distribution had happened before. -/
def Entry.isReset (e : Entry) : Bool :=
  match e.call.op with
  | .distribute (some _) => e.pre.backfillStatus = some true && e.pre.lastDistributionTime != 0
  | _ => false

theorem emitterRead_status (status : Option Bool) (now : Nat) (reply : Option Nat) :
    (emitterRead status now reply).backfillStatus = status ∨
    (status = none ∧ (emitterRead status now reply).backfillStatus = some true ∧ reply = none) ∨
    (status = some true ∧ (emitterRead status now reply).backfillStatus = some false ∧
      ∃ t, reply = some t) := by
  cases reply <;> rcases status with _ | _ | _ <;> simp [emitterRead]

theorem distribute_backfillStatus {s s' : State} {now : Nat} {reply : Option Nat} {n : Int}
    (h : distribute c s now reply = .ok (s', n)) :
    s'.backfillStatus = (emitterRead s.backfillStatus now reply).backfillStatus := by
  rcases distribute_eq_ok h with ⟨-, -, rfl⟩ | ⟨-, -, -, -, -, -, d, -, -, rfl⟩ <;> rfl

theorem statusStep_of_step {s s' : State} {call : Call} {r : Ret}
    (h : step c s call = .ok (s', r)) : StatusStep ⟨s, call, r, s'⟩ := by
  rcases step_distribute_cases h with ⟨reply, n, hop, -, hd⟩ | ⟨-, -, -, hst, -⟩
  · have hst := distribute_backfillStatus hd
    unfold StatusStep
    simp only [hop]
    rcases emitterRead_status s.backfillStatus call.ledger.timestamp reply with
      h1 | ⟨h1, h2, rfl⟩ | ⟨h1, h2, t, rfl⟩
    · exact .inl (hst.trans h1)
    · exact .inr (.inl ⟨h1, hst.trans h2, rfl⟩)
    · exact .inr (.inr ⟨h1, hst.trans h2, t, rfl⟩)
  · exact .inl hst

theorem Entry.isReset_iff {e : Entry} : e.isReset = true ↔
    (∃ t, e.call.op = .distribute (some t)) ∧ e.pre.backfillStatus = some true ∧
      e.pre.lastDistributionTime ≠ 0 := by
  unfold Entry.isReset
  split <;> simp_all

theorem reset_post_status {s s' : State} {call : Call} {r : Ret} (h : step c s call = .ok (s', r))
    (hr : Entry.isReset ⟨s, call, r, s'⟩ = true) : s'.backfillStatus = some false := by
  obtain ⟨⟨t, hop⟩, hst, -⟩ := Entry.isReset_iff.1 hr
  rcases step_distribute_cases h with ⟨reply, n, hop', -, hd⟩ | ⟨hnd, -⟩
  · cases hop.symm.trans hop'
    rw [distribute_backfillStatus hd]
    simp only at hst
    simp [emitterRead, hst]
  · exact absurd hop (hnd _)

/-- **Backfill status only moves forward.**  On every run each call changes the backfill status by
`StatusStep`, and the reset branch of `distribute` is taken at most once. -/
theorem backfill_status_forward {s : State} {log : List Entry} (hrun : Run c s log) :
    (∀ e ∈ log, StatusStep e) ∧ log.countP Entry.isReset ≤ 1 := by
  suffices (∀ e ∈ log, StatusStep e) ∧ log.countP Entry.isReset ≤ 1 ∧
      (log.countP Entry.isReset = 1 → s.backfillStatus = some false) from ⟨this.1, this.2.1⟩
  induction hrun with
  | init => exact ⟨by simp, by simp, by simp⟩
  | @step s s' log call r _ hs ih =>
    obtain ⟨hsteps, hcount, hfalse⟩ := ih
    have hss := statusStep_of_step hs
    refine ⟨fun e he => ?_, ?_, ?_⟩
    · rcases List.mem_append.1 he with he | he
      · exact hsteps e he
      · rw [List.mem_singleton.1 he]; exact hss
    · rw [List.countP_append, List.countP_singleton]
      split
      · rename_i hr
        have hst := (Entry.isReset_iff.1 hr).2.1
        have : log.countP Entry.isReset = 0 := by
          by_contra hne
          rw [hfalse (by omega)] at hst
          cases hst
        omega
      · omega
    · rw [List.countP_append, List.countP_singleton]
      split
      · exact fun _ => reset_post_status hs ‹_›
      · intro h1
        have hs0 := hfalse (by simpa using h1)
        rcases hss with h2 | ⟨h2, -⟩ | ⟨h2, -⟩
        · exact h2.trans hs0
        all_goals simp [hs0] at h2

theorem backfill_status_forward_sample :
    (∀ e ∈ sampleRun.2, StatusStep e) ∧ sampleRun.2.countP Entry.isReset ≤ 1 :=
  backfill_status_forward sampleRun_run

/-! ### The backfill ledger -/

theorem backfill_step {s s' : State} {call : Call} {r : Ret} (h : step c s call = .ok (s', r)) :
    s'.backfillEmissions = s.backfillEmissions + Entry.backfilled ⟨s, call, r, s'⟩ ∧
      (s'.backfillEmissions = s.backfillEmissions ∨
        s'.backfillEmissions ≤ c.maxBackfilledEmissions) := by
  rcases step_distribute_cases h with ⟨reply, n, hop, rfl, hd⟩ | ⟨hnd, -, -, -, hb⟩
  · rw [(@Entry.distributed_of_distribute ⟨s, call, _, s'⟩ _ _ hop rfl).2]
    rcases distribute_eq_ok hd with ⟨-, rfl, rfl⟩ | ⟨-, -, -, -, -, hcap, d, -, -, rfl⟩
    · simp
    · cases reply
      · simp only [emitterRead_isBackfill, Option.isNone_none, if_true, true_implies] at hcap
        simp [hcap]
      · simp
  · rw [(@Entry.distributed_of_ne ⟨s, call, r, s'⟩ hnd).2, hb]
    simp

/-- **Backfill accounting.**  On every run `backfill_emissions` is its first value plus what
the backfill runs credited, and stays within `MAX_BACKFILLED_EMISSIONS`. -/
theorem backfill_accounting (hcap : 0 ≤ c.maxBackfilledEmissions) {s : State} {log : List Entry}
    (hrun : Run c s log) :
    s.backfillEmissions = State.init.backfillEmissions + (log.map Entry.backfilled).sum ∧
      s.backfillEmissions ≤ c.maxBackfilledEmissions := by
  induction hrun with
  | init => exact ⟨by simp, hcap⟩
  | step _ hs ih =>
    obtain ⟨heq, hle⟩ := backfill_step hs
    rw [List.map_append, List.sum_append, List.map_singleton, List.sum_singleton, ← add_assoc,
      ← ih.1]
    exact ⟨heq, hle.elim (fun h => h ▸ ih.2) id⟩

theorem backfill_accounting_sample :
    (0 : Int) ≤ specConfig.maxBackfilledEmissions ∧
      sampleRun.1.backfillEmissions =
        State.init.backfillEmissions + (sampleRun.2.map Entry.backfilled).sum ∧
      sampleRun.1.backfillEmissions ≤ specConfig.maxBackfilledEmissions :=
  ⟨by decide, backfill_accounting (by decide) sampleRun_run⟩

/-! ### The distribution clock -/

def Entry.okReply (e : Entry) : Option Nat :=
  match e.call.op with
  | .distribute reply => reply
  | _ => none

/-- The emitter never answers a time earlier than one counted before: its answers never go back, and
none is earlier than the ledger time of an earlier backfill run. -/
def EmitterMonotone (log : List Entry) : Prop :=
  log.Pairwise fun e₁ e₂ => ∀ t ∈ e₁.emitterTime, ∀ r ∈ e₂.okReply, t ≤ r

instance : DecidablePred EmitterMonotone := fun log =>
  inferInstanceAs (Decidable (log.Pairwise _))

def firstDistributionTime (log : List Entry) : Nat :=
  ((log.map fun e => e.post.lastDistributionTime).find? (· != 0)).getD 0

theorem firstDistributionTime_append (log : List Entry) (e : Entry) :
    firstDistributionTime (log ++ [e]) =
      if firstDistributionTime log = 0 then e.post.lastDistributionTime
      else firstDistributionTime log := by
  unfold firstDistributionTime
  rw [List.map_append, List.find?_append]
  cases h : (log.map fun e => e.post.lastDistributionTime).find? (· != 0) with
  | none => by_cases h0 : e.post.lastDistributionTime = 0 <;> simp [h0]
  | some x =>
    have hx : x ≠ 0 := by simpa using List.find?_some h
    simp [hx]

/-- **One call on the clock.**  A call leaves the clock alone and credits nothing, or it is a
`distribute` that sets the clock to its emitter time and credits nothing or the time since the last
distribution, more than an hour. -/
theorem clock_step {s s' : State} {call : Call} {r : Ret} (h : step c s call = .ok (s', r)) :
    (s'.lastDistributionTime = s.lastDistributionTime ∧ Entry.distributed ⟨s, call, r, s'⟩ = 0) ∨
    (Entry.emitterTime ⟨s, call, r, s'⟩ = some s'.lastDistributionTime ∧
      ((Entry.distributed ⟨s, call, r, s'⟩ = 0 ∧ (s.lastDistributionTime = 0 ∨
          Entry.okReply ⟨s, call, r, s'⟩ = some s'.lastDistributionTime)) ∨
        (s.lastDistributionTime ≠ 0 ∧ s.lastDistributionTime + 60 * 60 < s'.lastDistributionTime ∧
          Entry.distributed ⟨s, call, r, s'⟩ =
            ((s'.lastDistributionTime - s.lastDistributionTime : Nat) : Int) * scalar7))) := by
  rcases step_distribute_cases h with ⟨reply, n, hop, rfl, hd⟩ | ⟨hnd, -, hlast, -⟩
  · rw [(@Entry.distributed_of_distribute ⟨s, call, _, s'⟩ _ _ hop rfl).1]
    have hlast : s'.lastDistributionTime = reply.getD call.ledger.timestamp := by
      rcases distribute_eq_ok hd with ⟨-, -, rfl⟩ | ⟨-, -, -, -, -, -, d, -, -, rfl⟩ <;> simp
    have htime : Entry.emitterTime ⟨s, call, .emissions n, s'⟩ = some s'.lastDistributionTime := by
      rw [hlast]; cases reply <;> simp [Entry.emitterTime, hop]
    have hok : Entry.okReply ⟨s, call, .emissions n, s'⟩ = reply := by simp [Entry.okReply, hop]
    refine .inr ⟨htime, ?_⟩
    rw [hok, hlast]
    rcases distribute_eq_ok hd with ⟨h0, rfl, -⟩ | ⟨h0, -, -, hlt, rfl, -, d, -, -, -⟩
    · refine .inl ⟨rfl, h0.imp_right fun hr => ?_⟩
      obtain ⟨t, rfl⟩ := emitterRead_needsReset hr
      rfl
    · simp only [emitterRead_emitterLastDistribution] at hlt ⊢
      exact .inr ⟨h0, hlt, trivial⟩
  · exact .inl ⟨hlast, (@Entry.distributed_of_ne ⟨s, call, r, s'⟩ hnd).1⟩

/-- What the clock keeps along a run whose emitter never goes back: the clock is zero or a
time some call counted up to; every non-zero time a call left it at is at most the clock; and
what the run credited is at most `SCALAR_7` times the time since the first non-zero one. -/
structure ClockInv (s : State) (log : List Entry) : Prop where
  source : s.lastDistributionTime = 0 ∨ ∃ e ∈ log, e.emitterTime = some s.lastDistributionTime
  le_last : ∀ e ∈ log, e.post.lastDistributionTime ≠ 0 →
    e.post.lastDistributionTime ≤ s.lastDistributionTime
  first_le : firstDistributionTime log ≤ s.lastDistributionTime
  first_pos : s.lastDistributionTime ≠ 0 → firstDistributionTime log ≠ 0
  total : (log.map Entry.distributed).sum ≤
    scalar7 * ((s.lastDistributionTime - firstDistributionTime log : Nat) : Int)

theorem clock_mono {s s' : State} {log : List Entry} {call : Call} {r : Ret}
    (h : step c s call = .ok (s', r)) (hinv : ClockInv s log)
    (hmono : ∀ e ∈ log, ∀ t ∈ e.emitterTime, ∀ r' ∈ Entry.okReply ⟨s, call, r, s'⟩, t ≤ r')
    (hs : s.lastDistributionTime ≠ 0) : s.lastDistributionTime ≤ s'.lastDistributionTime := by
  rcases clock_step h with ⟨heq, -⟩ | ⟨-, ⟨-, h0 | hok⟩ | ⟨-, hlt, -⟩⟩
  · exact heq.ge
  · exact absurd h0 hs
  · obtain ⟨e, he, ht⟩ := hinv.source.resolve_left hs
    exact hmono e he _ ht _ hok
  · omega

theorem clockInv_step {s s' : State} {log : List Entry} {call : Call} {r : Ret}
    (h : step c s call = .ok (s', r)) (hinv : ClockInv s log)
    (hmono : ∀ e ∈ log, ∀ t ∈ e.emitterTime, ∀ r' ∈ Entry.okReply ⟨s, call, r, s'⟩, t ≤ r') :
    ClockInv s' (log ++ [⟨s, call, r, s'⟩]) := by
  have hm := clock_mono h hinv hmono
  have hfirst := firstDistributionTime_append log ⟨s, call, r, s'⟩
  simp only at hfirst
  have hsum : ((log ++ [(⟨s, call, r, s'⟩ : Entry)]).map Entry.distributed).sum =
      (log.map Entry.distributed).sum + Entry.distributed ⟨s, call, r, s'⟩ := by simp
  have hf := hinv.first_le
  have hp := hinv.first_pos
  have ht := hinv.total
  constructor
  · rcases clock_step h with ⟨heq, -⟩ | ⟨htime, -⟩
    · rcases hinv.source with h0 | ⟨e, he, hte⟩
      · exact .inl (heq.trans h0)
      · exact .inr ⟨e, List.mem_append_left _ he, heq ▸ hte⟩
    · exact .inr ⟨_, List.mem_append_right _ (List.mem_singleton_self _), htime⟩
  · intro e he hne
    rcases List.mem_append.1 he with he | he
    · have := hinv.le_last e he hne
      have := hm (by omega)
      omega
    · rw [List.mem_singleton.1 he]
  · split at hfirst <;> rw [hfirst]
    by_cases hs : s.lastDistributionTime = 0
    · omega
    · have := hm hs; omega
  · split at hfirst <;> rw [hfirst] <;> omega
  · rw [hsum, hfirst]
    by_cases hz : firstDistributionTime log = 0
    · -- before the first distribution the clock is unset and a call only sets it
      have h0 : s.lastDistributionTime = 0 := by_contra fun hs => hp hs hz
      have hd : Entry.distributed ⟨s, call, r, s'⟩ = 0 := by
        rcases clock_step h with ⟨-, hd⟩ | ⟨-, ⟨hd, -⟩ | ⟨hs, -, -⟩⟩
        · exact hd
        · exact hd
        · exact absurd h0 hs
      rw [if_pos hz, Nat.sub_self, hd]
      simpa [h0, hz] using ht
    · rw [if_neg hz]
      have hle := hm (by omega)
      rcases clock_step h with ⟨-, hd⟩ | ⟨-, ⟨hd, -⟩ | ⟨-, -, hd⟩⟩ <;>
      · rw [hd]
        unfold scalar7 at ht ⊢
        push_cast [Nat.cast_sub hf, Nat.cast_sub hle, Nat.cast_sub (hf.trans hle)] at ht ⊢
        omega

theorem clockInv_run {s : State} {log : List Entry} (hrun : Run c s log)
    (hmono : EmitterMonotone log) : ClockInv s log := by
  induction hrun with
  | init => exact ⟨.inl rfl, by simp, le_rfl, fun h => absurd rfl h, by decide⟩
  | step _ hs ih =>
    obtain ⟨hpre, -, hlast⟩ := List.pairwise_append.1 hmono
    exact clockInv_step hs (ih hpre) fun e he => hlast e he _ (List.mem_singleton_self _)

theorem credit_of_mem {s : State} {log : List Entry} (hrun : Run c s log) {e : Entry}
    (he : e ∈ log) (hpos : 0 < e.distributed) :
    e.pre.lastDistributionTime ≠ 0 ∧
      e.pre.lastDistributionTime + 60 * 60 < e.post.lastDistributionTime ∧
      e.distributed = ((e.post.lastDistributionTime - e.pre.lastDistributionTime : Nat) : Int) * scalar7 := by
  rcases clock_step (Run.step_of_mem hrun he) with ⟨-, hd⟩ | ⟨-, ⟨hd, -⟩ | hcredit⟩
  · exact absurd hd hpos.ne'
  · exact absurd hd hpos.ne'
  · exact hcredit

theorem clock_pairwise {s : State} {log : List Entry} (hrun : Run c s log)
    (hmono : EmitterMonotone log) :
    (log.map fun e => e.post.lastDistributionTime).Pairwise (fun a b => a ≠ 0 → a ≤ b) ∧
      log.Pairwise fun e₁ e₂ => 0 < e₁.distributed → 0 < e₂.distributed →
        e₁.post.lastDistributionTime ≤ e₂.pre.lastDistributionTime := by
  induction hrun with
  | init => exact ⟨.nil, .nil⟩
  | @step s s' log call r hrun hs ih =>
    obtain ⟨hpre, -, hlast⟩ := List.pairwise_append.1 hmono
    have hinv := clockInv_run hrun hpre
    have hm := clock_mono hs hinv fun e he => hlast e he _ (List.mem_singleton_self _)
    rw [List.map_append, List.map_singleton, List.pairwise_append, List.pairwise_append]
    refine ⟨⟨(ih hpre).1, List.pairwise_singleton _ _, fun a ha b hb hne => ?_⟩,
      ⟨(ih hpre).2, List.pairwise_singleton _ _, fun e he b hb hpos _ => ?_⟩⟩
    · obtain ⟨e, he, rfl⟩ := List.mem_map.1 ha
      rw [List.mem_singleton.1 hb]
      have := hinv.le_last e he hne
      have := hm (by omega)
      dsimp only
      omega
    · rw [List.mem_singleton.1 hb]
      have := (credit_of_mem hrun he hpos).2.1
      exact hinv.le_last e he (by omega)

/-- **`distribute` never credits the same emitter time twice.**  On every run whose emitter never
goes back, the last distribution time never decreases once set, each credit of `N > 0` moves it up
by `N / SCALAR_7` seconds over disjoint intervals, and the total is bounded by the time elapsed. -/
theorem distribution_clock {s : State} {log : List Entry} (hrun : Run c s log)
    (hmono : EmitterMonotone log) :
    (log.map fun e => e.post.lastDistributionTime).Pairwise (fun a b => a ≠ 0 → a ≤ b) ∧
    (∀ e ∈ log, 0 < e.distributed →
      e.pre.lastDistributionTime + 60 * 60 < e.post.lastDistributionTime ∧
      e.distributed = ((e.post.lastDistributionTime - e.pre.lastDistributionTime : Nat) : Int) * scalar7) ∧
    log.Pairwise (fun e₁ e₂ => 0 < e₁.distributed → 0 < e₂.distributed →
      e₁.post.lastDistributionTime ≤ e₂.pre.lastDistributionTime) ∧
    (log.map Entry.distributed).sum ≤
      scalar7 * ((s.lastDistributionTime - firstDistributionTime log : Nat) : Int) :=
  ⟨(clock_pairwise hrun hmono).1, fun _ he hpos => (credit_of_mem hrun he hpos).2,
    (clock_pairwise hrun hmono).2, (clockInv_run hrun hmono).total⟩

theorem distribution_clock_sample :
    EmitterMonotone sampleRun.2 ∧
    (sampleRun.2.map fun e => e.post.lastDistributionTime).Pairwise (fun a b => a ≠ 0 → a ≤ b) ∧
    (∀ e ∈ sampleRun.2, 0 < e.distributed →
      e.pre.lastDistributionTime + 60 * 60 < e.post.lastDistributionTime ∧
      e.distributed = ((e.post.lastDistributionTime - e.pre.lastDistributionTime : Nat) : Int) * scalar7) ∧
    sampleRun.2.Pairwise (fun e₁ e₂ => 0 < e₁.distributed → 0 < e₂.distributed →
      e₁.post.lastDistributionTime ≤ e₂.pre.lastDistributionTime) ∧
    (sampleRun.2.map Entry.distributed).sum ≤
      scalar7 * ((sampleRun.1.lastDistributionTime - firstDistributionTime sampleRun.2 : Nat) : Int) :=
  have hmono : EmitterMonotone sampleRun.2 := by decide
  ⟨hmono, distribution_clock sampleRun_run hmono⟩

end BlendBackstop
