import StageFlow.Plan.Traversal

/-!
# Laws of traversal

## Contents
- **Records.** The walk by a stack visits what the recursion lists.
- **Distinct identifiers.** What `distinctFrom` keeps, and what becomes of it under a partial function.
-/

namespace StageFlow

/-! ## Records -/

theorem flatMap_pushPeers (f : NodeRecord → List NodeRecord) (links : List (Link NodeRecord))
    (stack : List NodeRecord) :
    (pushPeers links stack).flatMap f = links.flatMap (fun l => f l.peer) ++ stack.flatMap f := by
  induction links with
  | nil => rfl
  | cons l ls ih =>
    show f l.peer ++ (pushPeers ls stack).flatMap f = _
    rw [ih, List.flatMap_cons, List.append_assoc]

theorem listingOfLinks_eq (links : List (Link NodeRecord)) :
    listingOfLinks links = links.flatMap fun l => l.peer.listing := by
  induction links with
  | nil => rfl
  | cons l ls ih => rw [listingOfLinks, ih, List.flatMap_cons]

/-- A record comes first, and then all that its links lead to. -/
theorem NodeRecord.listing_eq (r : NodeRecord) :
    r.listing = r :: (r.incoming ++ r.outgoing).flatMap fun l => l.peer.listing := by
  cases r
  rw [listing, listingOfLinks_eq, listingOfLinks_eq, List.flatMap_append]

/-- The walk visits each record of the stack with all that it leads to. -/
theorem walk_eq (stack : List NodeRecord) : walk stack = stack.flatMap NodeRecord.listing := by
  -- the induction is along the walk, whose stack loses one record and gains its peers
  induction stack using walk.induct with
  | case1 => rw [walk, List.flatMap_nil]
  | case2 r stack ih =>
    rw [walk, ih, flatMap_pushPeers, flatMap_pushPeers, List.flatMap_cons, NodeRecord.listing_eq,
      List.flatMap_append, List.cons_append, List.append_assoc]

/-- **The records of a plan** are what the recursion over its listed records lists. -/
theorem Plan.records_eq (p : Plan) : p.records = p.listed.flatMap NodeRecord.listing := by
  have hwalk : (fun r => walk [r]) = NodeRecord.listing :=
    funext fun r => by rw [walk_eq, List.flatMap_singleton]
  rw [records, hwalk]

/-! ## Distinct identifiers -/

variable {α : Type} {seen seen' ids : List NodeId} {a : NodeId}

theorem distinctFrom_cons_of_mem (h : a ∈ seen) (ids : List NodeId) :
    distinctFrom seen (a :: ids) = distinctFrom seen ids :=
  if_pos h

theorem distinctFrom_cons_of_not_mem (h : a ∉ seen) (ids : List NodeId) :
    distinctFrom seen (a :: ids) = a :: distinctFrom (a :: seen) ids :=
  if_neg h

theorem mem_distinctFrom : a ∈ distinctFrom seen ids ↔ a ∈ ids ∧ a ∉ seen := by
  induction ids generalizing seen with
  | nil => simp [distinctFrom]
  | cons b bs ih =>
    by_cases hb : b ∈ seen
    · rw [distinctFrom_cons_of_mem hb, ih, List.mem_cons]
      constructor
      · exact fun ⟨hm, hn⟩ => ⟨Or.inr hm, hn⟩
      · rintro ⟨rfl | hm, hn⟩
        · exact absurd hb hn
        · exact ⟨hm, hn⟩
    · rw [distinctFrom_cons_of_not_mem hb, List.mem_cons, ih, List.mem_cons, List.mem_cons]
      by_cases hab : a = b
      · subst hab
        simp [hb]
      · simp [hab]

theorem distinctFrom_sublist (seen ids : List NodeId) : (distinctFrom seen ids).Sublist ids := by
  induction ids generalizing seen with
  | nil => exact List.Sublist.refl []
  | cons b bs ih =>
    by_cases hb : b ∈ seen
    · rw [distinctFrom_cons_of_mem hb]
      exact (ih seen).cons b
    · rw [distinctFrom_cons_of_not_mem hb]
      exact (ih (b :: seen)).cons_cons b

theorem nodup_distinctFrom (seen ids : List NodeId) : (distinctFrom seen ids).Nodup := by
  induction ids generalizing seen with
  | nil => exact List.nodup_nil
  | cons b bs ih =>
    by_cases hb : b ∈ seen
    · rw [distinctFrom_cons_of_mem hb]
      exact ih seen
    · rw [distinctFrom_cons_of_not_mem hb, List.nodup_cons]
      refine ⟨?_, ih (b :: seen)⟩
      intro h
      exact (mem_distinctFrom.mp h).2 List.mem_cons_self

/-- What has been seen matters only for the identifiers to come. -/
theorem distinctFrom_congr (h : ∀ a ∈ ids, a ∈ seen ↔ a ∈ seen') :
    distinctFrom seen ids = distinctFrom seen' ids := by
  induction ids generalizing seen seen' with
  | nil => rfl
  | cons b bs ih =>
    have hbs : ∀ a ∈ bs, a ∈ seen ↔ a ∈ seen' := fun a ha => h a (List.mem_cons_of_mem b ha)
    by_cases hb : b ∈ seen
    · have hb' : b ∈ seen' := (h b List.mem_cons_self).mp hb
      rw [distinctFrom_cons_of_mem hb, distinctFrom_cons_of_mem hb', ih hbs]
    · have hb' : b ∉ seen' := fun hm => hb ((h b List.mem_cons_self).mpr hm)
      rw [distinctFrom_cons_of_not_mem hb, distinctFrom_cons_of_not_mem hb']
      congr 1
      apply ih
      intro a ha
      rw [List.mem_cons, List.mem_cons, hbs a ha]

/-- An identifier that a function passes over may as well have been seen. -/
theorem filterMap_distinctFrom_seen {f : NodeId → Option α} (ha : f a = none) :
    (distinctFrom (a :: seen) ids).filterMap f = (distinctFrom seen ids).filterMap f := by
  induction ids generalizing seen with
  | nil => rfl
  | cons b bs ih =>
    by_cases hb : b ∈ seen
    · rw [distinctFrom_cons_of_mem hb, distinctFrom_cons_of_mem (List.mem_cons_of_mem a hb), ih]
    · rw [distinctFrom_cons_of_not_mem hb]
      by_cases hab : b = a
      -- `a` itself is passed over, seen or not
      · subst hab
        rw [distinctFrom_cons_of_mem List.mem_cons_self, List.filterMap_cons_none ha]
      · have hb' : b ∉ a :: seen := fun hm => (List.mem_cons.mp hm).elim hab hb
        have hswap : distinctFrom (b :: a :: seen) bs = distinctFrom (a :: b :: seen) bs :=
          distinctFrom_congr fun k _ => by
            rw [List.mem_cons, List.mem_cons, List.mem_cons, List.mem_cons, or_left_comm]
        rw [distinctFrom_cons_of_not_mem hb', List.filterMap_cons, List.filterMap_cons, hswap, ih]

theorem filterMap_distinctFrom_cons_none {f : NodeId → Option α} (ha : f a = none) :
    (distinctFrom seen (a :: ids)).filterMap f = (distinctFrom seen ids).filterMap f := by
  by_cases hs : a ∈ seen
  · rw [distinctFrom_cons_of_mem hs]
  · rw [distinctFrom_cons_of_not_mem hs, List.filterMap_cons_none ha, filterMap_distinctFrom_seen ha]

/-- Identifiers that come first are met first. -/
theorem distinctFrom_isPrefix_append (seen ids ids' : List NodeId) :
    distinctFrom seen ids <+: distinctFrom seen (ids ++ ids') := by
  induction ids generalizing seen with
  | nil => exact List.nil_prefix
  | cons b bs ih =>
    by_cases hb : b ∈ seen
    · rw [List.cons_append, distinctFrom_cons_of_mem hb, distinctFrom_cons_of_mem hb]
      exact ih seen
    · rw [List.cons_append, distinctFrom_cons_of_not_mem hb, distinctFrom_cons_of_not_mem hb,
        List.prefix_cons_inj]
      exact ih (b :: seen)

/-- Two lists go one after the other if no identifier that matters is in both. -/
theorem filterMap_distinctFrom_append {f : NodeId → Option α} {ids' : List NodeId}
    (h : ∀ a ∈ ids', a ∈ ids → f a = none) :
    (distinctFrom seen (ids ++ ids')).filterMap f
      = (distinctFrom seen ids).filterMap f ++ (distinctFrom seen ids').filterMap f := by
  induction ids generalizing seen with
  | nil => rfl
  | cons b bs ih =>
    have hbs : ∀ a ∈ ids', a ∈ bs → f a = none := fun a ha hm =>
      h a ha (List.mem_cons_of_mem b hm)
    by_cases hb : b ∈ seen
    · rw [List.cons_append, distinctFrom_cons_of_mem hb, distinctFrom_cons_of_mem hb, ih hbs]
    · rw [List.cons_append, distinctFrom_cons_of_not_mem hb, distinctFrom_cons_of_not_mem hb,
        List.filterMap_cons, List.filterMap_cons, ih hbs]
      -- what has been seen in `ids` does not matter for `ids'`
      have hrest : (distinctFrom (b :: seen) ids').filterMap f
          = (distinctFrom seen ids').filterMap f := by
        by_cases hm : b ∈ ids'
        · exact filterMap_distinctFrom_seen (h b hm List.mem_cons_self)
        · refine congrArg (List.filterMap f) (distinctFrom_congr ?_)
          intro a ha
          rw [List.mem_cons, or_iff_right]
          rintro rfl
          exact hm ha
      rw [hrest]
      cases f b <;> rfl

end StageFlow
