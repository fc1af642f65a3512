import StageFlow.Proofs.Rounds

/-!
# Statistics

What the counts of a run say if it ends without a failure. Each entry of the plan is counted once, and as
often as it is listed, unless it has no controller. The entries counted as invoked are the launches, and each
launch has left a result that was not there before.

## Contents
- **Nodes with results.** `Cache.ids`.
- **Entries.** `RunStats.entries`, and what each round adds.
- **New results.** The nodes that are invoked are those that have come to have a result.
- **Runs.** `run_accounts`.
-/

namespace StageFlow

/-! ## Nodes with results -/

namespace Cache

/-- The nodes that have a result, in the order of their texts. -/
def ids (c : Cache) : List NodeId := c.results.keys.map NodeId.mk

theorem mem_ids {c : Cache} {id : NodeId} : id ∈ c.ids ↔ c.has id = true := by
  have hkey : id ∈ c.ids ↔ id.text ∈ c.results.entries.map (·.1) := by
    unfold ids SortedMap.keys
    rw [List.mem_map]
    constructor
    · rintro ⟨text, htext, rfl⟩
      exact htext
    · intro htext
      exact ⟨id.text, htext, rfl⟩
  rw [hkey, ← not_iff_not, ← Assoc.lookup_eq_none_iff, Bool.not_eq_true, has_eq_false_iff]
  rfl

theorem nodup_ids (c : Cache) : c.ids.Nodup := by
  apply List.Nodup.map
  · intro a b hab
    exact NodeId.mk.inj hab
  · exact c.results.nodup_keys

end Cache

/-! ## Entries -/

/-- How many entries the counts of a run are about. -/
def RunStats.entries (stats : RunStats) : Nat := stats.invoked + stats.cached + stats.waiting

namespace Session

variable {σ : Type} {s s' : Session σ} {stats stats' : RunStats} {id : NodeId} {ids : List NodeId}
variable {rounds : List (List NodeId)} {batch : List Ending} {launched : Nat}
variable {P : NodeDescriptor → Object → Except String Object → Prop}

/-- An entry of a round has a result or has none, and what is launched does not wait. -/
theorem Counts.entries {e : Executor σ} (h : Counts e ids launched stats stats') :
    stats'.entries = stats.entries + ids.countP e.tracks := by
  have hsplit := List.countP_eq_countP_filter_add ids e.tracks e.cache.has
  rw [List.countP_filter, List.countP_filter] at hsplit
  have hinvoked := h.invoked
  have hcached := h.cached
  have hwaiting := h.waiting
  unfold RunStats.entries
  omega

/-- Rounds that are passed account for what they list and for what they launch. -/
theorem Rounds.entries (h : Rounds P s stats rounds batch (s', .ok stats')) :
    stats'.entries = stats.entries + rounds.flatten.countP s.executor.tracks
      ∧ stats'.invoked = stats.invoked + batch.length := by
  generalize hend : (s', Except.ok stats') = result at h
  induction h with
  | done s stats =>
    obtain rfl := Except.ok.inj (Prod.mk.inj hend).2
    exact ⟨rfl, rfl⟩
  | @pass s s₁ _ stats₁ ids rounds batch batch' _ served _ counts _ _ ih =>
    obtain ⟨hentries, hinvoked⟩ := ih hend
    -- no round adds or removes a controller
    have htracks : s₁.executor.tracks = s.executor.tracks :=
      funext (Executor.tracks_of_frame served.steps.frame)
    constructor
    · rw [hentries, counts.entries, htracks, List.flatten_cons, List.countP_append, Nat.add_assoc]
    · rw [hinvoked, counts.invoked, List.length_append, Nat.add_assoc]
  | fail _ _ _ => exact absurd (Prod.mk.inj hend).2 (by simp)

/-! ## New results -/

/-- What is invoked in rounds that are passed is what has a result after them and had none before. -/
theorem Rounds.mem_iff_new (h : Rounds P s stats rounds batch (s', .ok stats'))
    (hs : Moment.Sound ⟨[], s⟩) :
    (id ∈ batch.map fun x => x.1.id)
      ↔ s'.executor.cache.has id = true ∧ s.executor.cache.has id = false := by
  constructor
  · intro hid
    obtain ⟨x, hx, rfl⟩ := List.mem_map.mp hid
    exact ⟨Cache.has_iff.mpr (h.get?_of_mem hs hid),
      Cache.has_eq_false_iff.mpr (h.get?_eq_none hs x hx)⟩
  · rintro ⟨hafter, hbefore⟩
    by_contra hid
    have hkept := h.get?_of_not_invoked hid
    rw [Cache.has_eq_false_iff.mp hbefore] at hkept
    rw [Cache.has_eq_false_iff.mpr hkept] at hafter
    exact Bool.noConfusion hafter

/-- So there are as many invocations as there are new results. -/
theorem Rounds.length_eq (h : Rounds P s stats rounds batch (s', .ok stats'))
    (hs : Moment.Sound ⟨[], s⟩) :
    batch.length = s'.executor.cache.ids.countP fun id => !s.executor.cache.has id := by
  have hperm : (batch.map fun x => x.1.id).Perm
      (s'.executor.cache.ids.filter fun id => !s.executor.cache.has id) := by
    rw [List.perm_ext_iff_of_nodup (h.nodup hs) ((Cache.nodup_ids _).filter _)]
    intro id
    rw [h.mem_iff_new hs, List.mem_filter, Cache.mem_ids, Bool.not_eq_true']
  rw [List.countP_eq_length_filter, ← hperm.length_eq, List.length_map]

/-! ## Runs -/

/-- **The counts of a run account for every entry of its plan.** Together they come to the number of entries
that have a controller, with those that are listed again. As invoked it counts the launches that the run has
made, and there are as many nodes that have a result after it and had none before. -/
theorem run_accounts (hs : Reachable s) (hrun : s.perform .run = (s', .run (.ok stats))) :
    stats.invoked + stats.cached + stats.waiting
        = s.executor.plan.listed.countP (fun r => s.executor.tracks r.id)
      ∧ (∃ launched, launches s'.journal = launches s.journal ++ launched
        ∧ stats.invoked = launched.length)
      ∧ stats.invoked = s'.executor.cache.ids.countP fun id => !s.executor.cache.has id := by
  obtain ⟨_, batch, _, hrounds⟩ := hs.rounds_of_ok hrun
  obtain ⟨hentries, hinvoked⟩ := hrounds.entries
  rw [Nat.zero_add] at hinvoked
  refine ⟨?_, ⟨_, hrounds.started, ?_⟩, ?_⟩
  · rw [Plan.flatten_rounds, List.countP_map] at hentries
    exact hentries.trans (Nat.zero_add _)
  · rw [hinvoked, List.length_map]
  · rw [hinvoked, hrounds.length_eq hs.sound]

/-- A producer is listed three times, and its consumer has no controller. The stage that lists the producer
twice invokes it once and counts it once as waiting; the next one finds its result. -/
theorem run_accounts_sample :
    ∃ s s' : Session Unit,
      Session.start Sample.repeating { nodes := [{ id := ⟨"a"⟩, kind := "" }] } (some .echo) () = .ok s
      ∧ s.perform .run = (s', .run (.ok ⟨1, 1, 1⟩))
      ∧ s.executor.plan.listed.countP (fun r => s.executor.tracks r.id) = 3
      ∧ (s'.executor.cache.ids.countP fun id => !s.executor.cache.has id) = 1 := by
  obtain ⟨s, s', hstart, hrun⟩ : ∃ s s' : Session Unit,
      Session.start Sample.repeating { nodes := [{ id := ⟨"a"⟩, kind := "" }] } (some .echo) () = .ok s
      ∧ s.perform .run = (s', .run (.ok ⟨1, 1, 1⟩)) :=
    ⟨_, _, (by rw [start, Executor.new, Plan.records_eq]; rfl), rfl⟩
  obtain ⟨hentries, _, hnew⟩ := run_accounts (.start hstart) hrun
  exact ⟨s, s', hstart, hrun, hentries.symm, hnew.symm⟩

end Session

end StageFlow
