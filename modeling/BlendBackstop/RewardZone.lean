import BlendBackstop.Spec

/-!
# The reward zone

The reward zone is a `Vec<Address>` of at most `MAX_RZ_SIZE` pools, kept free of duplicates by
the check at the top of `add_to_reward_zone`.  `remove_pool` drops the pool at
`first_index_of`, which removes every copy of it only because there is at most one.

* `ZoneWF`: no pool twice, at most `MAX_RZ_SIZE` pools.
* `ZoneChange`: how a call changes the zone as a set of pools.
* `zoneWF_step`: a successful call keeps `ZoneWF` and changes the zone by `ZoneChange`.
* `rewardZone_invariant`: on every run, every state has a well-formed zone and every call
  changed it by exactly the pools it names.
-/

namespace BlendBackstop

variable {c : Config}

/-- The reward zone holds no pool twice and at most `MAX_RZ_SIZE` pools. -/
structure ZoneWF (rz : List Address) : Prop where
  nodup : rz.Nodup
  length_le : rz.length ≤ maxRzSize

/-- How a successful call changes the reward zone as a set: an add puts `toAdd` in and on a full
zone takes `toRemove` out, a removal takes its pool out. -/
def ZoneChange (call : Call) (old new : List Address) : Prop :=
  match call.op with
  | .addToRewardZone toAdd toRemove _ =>
    (old.length < maxRzSize → ∀ x, x ∈ new ↔ x ∈ old ∨ x = toAdd) ∧
    (maxRzSize ≤ old.length → ∃ r, toRemove = some r ∧ ∀ x, x ∈ new ↔ (x ∈ old ∧ x ≠ r) ∨ x = toAdd)
  | .removeFromRewardZone toRemove _ => ∀ x, x ∈ new ↔ x ∈ old ∧ x ≠ toRemove
  | _ => new = old

theorem zoneWF_nil : ZoneWF [] := ⟨List.nodup_nil, Nat.zero_le _⟩

theorem ZoneWF.erase {rz : List Address} (h : ZoneWF rz) {r : Address} (hr : r ∈ rz) :
    ZoneWF (rz.erase r) ∧ (rz.erase r).length + 1 = rz.length ∧
      ∀ x, x ∈ rz.erase r ↔ x ∈ rz ∧ x ≠ r := by
  have hlen := List.length_erase_of_mem hr
  have hpos := List.length_pos_of_mem hr
  refine ⟨⟨h.nodup.erase r, by have := h.length_le; omega⟩, by omega, fun x => ?_⟩
  rw [h.nodup.mem_erase_iff, and_comm]

theorem ZoneWF.cons {rz : List Address} (h : ZoneWF rz) {q : Address} (hq : q ∉ rz)
    (hroom : rz.length < maxRzSize) : ZoneWF (q :: rz) :=
  ⟨List.nodup_cons.2 ⟨hq, h.nodup⟩, by simp only [List.length_cons]; omega⟩

/-- **One call** keeps the zone well formed and changes it by exactly the pools it names. -/
theorem zoneWF_step {s s' : State} {call : Call} {r : Ret} (hwf : ZoneWF s.rewardZone)
    (h : step c s call = .ok (s', r)) :
    ZoneWF s'.rewardZone ∧ ZoneChange call s.rewardZone s'.rewardZone := by
  unfold ZoneChange
  rcases step_eq_ok h with ⟨toAdd, toRemove, above, hop, -, ha⟩ | ⟨toRemove, above, hop, -, hr⟩ |
    ⟨_, _, hop, -⟩ | ⟨_, _, _, _, hop, -⟩ | ⟨_, _, hop, -⟩ | ⟨_, _, _, _, hop, -⟩
  case inl =>
    rw [hop]
    obtain ⟨hq, -, s₁, rz₁, hz, rfl⟩ := addToRewardZone_eq_ok ha
    rcases hz with ⟨hroom, rfl, rfl⟩ | ⟨hfull, t, rfl, -, hrem⟩
    · exact ⟨hwf.cons hq hroom, fun _ x => by simp [or_comm], fun h => absurd h (by omega)⟩
    · obtain ⟨ht, -, -, rfl, -⟩ := removePool_eq_ok hrem
      obtain ⟨hwf', hlen, hmem⟩ := hwf.erase ht
      have := hwf.length_le
      refine ⟨hwf'.cons (fun h => hq (List.mem_of_mem_erase h)) (by omega),
        fun h => absurd h (by omega), fun _ => ⟨t, rfl, fun x => ?_⟩⟩
      rw [List.mem_cons, hmem, or_comm]
  case inr.inl =>
    rw [hop]
    obtain ⟨-, s₁, rz₁, hrem, rfl⟩ := removeFromRewardZone_eq_ok hr
    obtain ⟨ht, -, -, rfl, -⟩ := removePool_eq_ok hrem
    exact ⟨(hwf.erase ht).1, (hwf.erase ht).2.2⟩
  all_goals
    have := step_rewardZone h (by simp [hop]) (by simp [hop])
    rw [hop]
    exact ⟨this ▸ hwf, this⟩

theorem zoneWF_of_run {s : State} {log : List Entry} (hrun : Run c s log) : ZoneWF s.rewardZone :=
  hrun.inv (fun _ => True) zoneWF_nil
    (fun _ _ _ _ hwf _ h => (zoneWF_step hwf h).1) (fun _ _ => trivial)

/-- **Reward-zone representation invariant.**  On every run the zone holds no pool twice and at most
`MAX_RZ_SIZE` pools, and each call changes it by exactly the pools it names. -/
theorem rewardZone_invariant {s : State} {log : List Entry} (hrun : Run c s log) :
    ZoneWF s.rewardZone ∧ ∀ e ∈ log, ZoneChange e.call e.pre.rewardZone e.post.rewardZone := by
  refine ⟨zoneWF_of_run hrun, ?_⟩
  induction hrun with
  | init => intro e he; cases he
  | step hrun hs ih =>
    intro e he
    rcases List.mem_append.1 he with he | he
    · exact ih e he
    · rw [List.mem_singleton.1 he]
      exact (zoneWF_step (zoneWF_of_run hrun) hs).2

theorem rewardZone_invariant_sample :
    ZoneWF sampleRun.1.rewardZone ∧
      ∀ e ∈ sampleRun.2, ZoneChange e.call e.pre.rewardZone e.post.rewardZone :=
  rewardZone_invariant sampleRun_run

end BlendBackstop
