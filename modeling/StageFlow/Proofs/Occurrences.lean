import Mathlib.Data.List.Nodup
import Mathlib.Logic.Function.Iterate
import StageFlow.Proofs.Traversal

/-!
# Occurrences of records in a plan

A record occurs in a plan where it is listed in a stage, and again wherever a link leads to it. An
occurrence is named by the way to it: which of the listed records to start at, and then which link to take
at each record. The traversal of a plan is compared with these names: it comes to every one of them, and to
none of them twice.

The loop over the stack is looked at turn by turn. What has been visited, followed by all that the stack
still leads to, is the same list before and after each turn, and a turn moves the border between the two
by one record (`Visit.turn_spec`). So the loop ends after as many turns as the list has records.

## Contents
- **Turns of the loop.** `Visit`, `Visit.turn`, and what any number of turns has visited.
- **Ways.** `NodeRecord.follow?`, and `NodeRecord.ways`, which are followed to the records of the listing.
- **Places.** `Plan.at?` and `Plan.places`, the same for a plan.
- **First occurrences.** The identifiers of a plan.
- **The whole traversal.** `Plan.traversal`.
-/

namespace StageFlow

/-! ## Turns of the loop -/

/-- The state of a visit: the records come to so far, and those still on the stack. -/
structure Visit where
  visited : List NodeRecord
  stack : List NodeRecord

namespace Visit

/-- One turn: the record on top is visited and gives way to its peers. -/
def turn : Visit → Visit
  | ⟨visited, []⟩ => ⟨visited, []⟩
  | ⟨visited, r :: stack⟩ => ⟨visited ++ [r], pushPeers r.incoming (pushPeers r.outgoing stack)⟩

/-- What is still to come. -/
def ahead (v : Visit) : List NodeRecord := v.stack.flatMap NodeRecord.listing

theorem ahead_eq_nil {v : Visit} : v.ahead = [] ↔ v.stack = [] := by
  rw [ahead, List.flatMap_eq_nil_iff]
  constructor
  · intro h
    rw [List.eq_nil_iff_forall_not_mem]
    intro r hr
    have hnil := h r hr
    rw [NodeRecord.listing_eq] at hnil
    exact List.cons_ne_nil _ _ hnil
  · intro h r hr
    rw [h] at hr
    exact absurd hr List.not_mem_nil

/-- The record on top comes first, and its peers come next. -/
theorem ahead_cons (visited : List NodeRecord) (r : NodeRecord) (stack : List NodeRecord) :
    ahead ⟨visited, r :: stack⟩ = r :: (turn ⟨visited, r :: stack⟩).ahead := by
  show (r :: stack).flatMap NodeRecord.listing
    = r :: (pushPeers r.incoming (pushPeers r.outgoing stack)).flatMap NodeRecord.listing
  rw [flatMap_pushPeers, flatMap_pushPeers, List.flatMap_cons, NodeRecord.listing_eq,
    List.flatMap_append, List.cons_append, List.append_assoc]

/-- A turn moves the first of the records ahead to the visited ones. -/
theorem turn_spec (v : Visit) :
    v.turn.visited = v.visited ++ v.ahead.take 1 ∧ v.turn.ahead = v.ahead.drop 1 := by
  obtain ⟨visited, _ | ⟨r, stack⟩⟩ := v
  · exact ⟨(List.append_nil visited).symm, rfl⟩
  · rw [ahead_cons]
    exact ⟨rfl, rfl⟩

/-- **After any number of turns** as many of the records ahead are visited, and the others are ahead. -/
theorem turns_spec (v : Visit) (n : Nat) :
    (turn^[n] v).visited = v.visited ++ v.ahead.take n ∧ (turn^[n] v).ahead = v.ahead.drop n := by
  induction n generalizing v with
  | zero => exact ⟨by rw [Function.iterate_zero_apply, List.take_zero, List.append_nil], rfl⟩
  | succ n ih =>
    obtain ⟨hvisited, hahead⟩ := ih v.turn
    obtain ⟨hvisited₁, hahead₁⟩ := v.turn_spec
    rw [Function.iterate_succ_apply, hvisited, hahead, hvisited₁, hahead₁, List.append_assoc,
      List.drop_drop, Nat.add_comm 1 n, Nat.add_comm n 1, List.take_add]
    exact ⟨rfl, rfl⟩

/-- **The loop ends** after as many turns as there are records ahead, and not before. -/
theorem turns_stack_eq_nil (v : Visit) (n : Nat) :
    (turn^[n] v).stack = [] ↔ v.ahead.length ≤ n := by
  rw [← ahead_eq_nil, (v.turns_spec n).2, List.drop_eq_nil_iff]

end Visit

/-! ## Ways -/

/-- A step from a record to a peer: over which of its incoming or outgoing links. -/
inductive Hop
  | incoming (index : Nat)
  | outgoing (index : Nat)
  deriving DecidableEq, Repr

/-- The record that a way leads to. -/
def NodeRecord.follow? (r : NodeRecord) : List Hop → Option NodeRecord
  | [] => some r
  | .incoming i :: way => (r.incoming[i]?).bind fun l => l.peer.follow? way
  | .outgoing i :: way => (r.outgoing[i]?).bind fun l => l.peer.follow? way

/-- Numbers the lists of a list, and gives each item of a list the number of it. -/
def numbered {α : Type} : List (List α) → List (Nat × α)
  | [] => []
  | as :: ass => as.map (0, ·) ++ (numbered ass).map fun x => (x.1 + 1, x.2)

mutual

/-- The ways from a record to those it leads to, in pre-order. -/
def NodeRecord.ways : NodeRecord → List (List Hop)
  | ⟨_, up, down⟩ =>
    [] :: ((numbered (waysOfLinks up)).map (fun x => .incoming x.1 :: x.2)
      ++ (numbered (waysOfLinks down)).map fun x => .outgoing x.1 :: x.2)

/-- The ways from the peer of each link. -/
def waysOfLinks : List (Link NodeRecord) → List (List (List Hop))
  | [] => []
  | ⟨peer, _, _⟩ :: ls => peer.ways :: waysOfLinks ls

end

section Numbered

variable {α β γ : Type}

theorem mem_numbered {ass : List (List α)} {i : Nat} {a : α} :
    (i, a) ∈ numbered ass ↔ ∃ as, ass[i]? = some as ∧ a ∈ as := by
  induction ass generalizing i with
  | nil => simp [numbered]
  | cons as ass ih =>
    rw [numbered, List.mem_append]
    cases i with
    | zero => simp
    | succ i =>
      rw [List.getElem?_cons_succ, ← ih]
      simp

/-- No item is given a number twice if no list has an item twice. -/
theorem nodup_numbered {ass : List (List α)} (h : ∀ as ∈ ass, as.Nodup) : (numbered ass).Nodup := by
  induction ass with
  | nil => exact List.nodup_nil
  | cons as ass ih =>
    rw [numbered, List.nodup_append]
    refine ⟨?_, ?_, ?_⟩
    · exact List.Nodup.map (fun a b hab => (Prod.mk.inj hab).2) (h as List.mem_cons_self)
    · refine List.Nodup.map ?_ (ih fun bs hbs => h bs (List.mem_cons_of_mem as hbs))
      rintro ⟨i, a⟩ ⟨j, b⟩ hab
      obtain ⟨hij, hab⟩ := Prod.mk.inj hab
      exact Prod.ext (Nat.succ.inj hij) hab
    -- the numbers of the first list are zero, and those of the others are not
    · intro x hx y hy hxy
      obtain ⟨a, -, rfl⟩ := List.mem_map.mp hx
      obtain ⟨z, -, rfl⟩ := List.mem_map.mp hy
      exact absurd (Prod.mk.inj hxy).1 (Nat.succ_ne_zero z.1).symm

/-- What numbered items stand for can be said list by list. -/
theorem map_numbered {as : List α} {items : α → List β} {f : Nat × β → γ} (value : α → β → γ)
    (h : ∀ i a b, as[i]? = some a → f (i, b) = value a b) :
    (numbered (as.map items)).map f = as.flatMap fun a => (items a).map (value a) := by
  induction as generalizing f with
  | nil => rfl
  | cons a as ih =>
    rw [List.map_cons, numbered, List.map_append, List.map_map, List.map_map, List.flatMap_cons]
    congr 1
    · exact List.map_congr_left fun b _ => h 0 a b rfl
    · exact ih fun i c b hc => h (i + 1) c b hc

end Numbered

theorem waysOfLinks_eq (links : List (Link NodeRecord)) :
    waysOfLinks links = links.map fun l => l.peer.ways := by
  induction links with
  | nil => rfl
  | cons l ls ih => rw [waysOfLinks, ih, List.map_cons]

/-- A record comes by no hop, and each of its peers by a hop to it. -/
theorem NodeRecord.ways_eq (r : NodeRecord) :
    r.ways = [] :: ((numbered (r.incoming.map fun l => l.peer.ways)).map (fun x => .incoming x.1 :: x.2)
      ++ (numbered (r.outgoing.map fun l => l.peer.ways)).map fun x => .outgoing x.1 :: x.2) := by
  cases r
  rw [ways, waysOfLinks_eq, waysOfLinks_eq]

mutual

/-- What follows for a record from the same for its peers holds of every record. -/
@[elab_as_elim]
theorem NodeRecord.peerInduction {motive : NodeRecord → Prop}
    (step : ∀ r, (∀ l ∈ r.incoming ++ r.outgoing, motive l.peer) → motive r) : (r : NodeRecord) → motive r
  | ⟨_, up, down⟩ => step _ fun l hl =>
    (List.mem_append.mp hl).elim (peerInductionLinks step up l) (peerInductionLinks step down l)

theorem peerInductionLinks {motive : NodeRecord → Prop}
    (step : ∀ r, (∀ l ∈ r.incoming ++ r.outgoing, motive l.peer) → motive r) :
    (links : List (Link NodeRecord)) → ∀ l ∈ links, motive l.peer
  | [], _, hl => absurd hl List.not_mem_nil
  | ⟨peer, _, _⟩ :: ls, l, hl =>
    (List.mem_cons.mp hl).elim (fun h => h ▸ NodeRecord.peerInduction step peer)
      (peerInductionLinks step ls l)

end

/-- A way is listed just if it can be followed. -/
theorem NodeRecord.mem_ways {r : NodeRecord} {way : List Hop} :
    way ∈ r.ways ↔ (r.follow? way).isSome := by
  induction way generalizing r with
  | nil =>
    rw [ways_eq]
    simp [follow?]
  | cons hop way ih =>
    -- the hop says which of the two halves the way is in, and at which number
    have hlinks : ∀ (links : List (Link NodeRecord)) (i : Nat),
        (i, way) ∈ numbered (links.map fun l => l.peer.ways)
          ↔ ((links[i]?).bind fun l => l.peer.follow? way).isSome := by
      intro links i
      rw [mem_numbered, List.getElem?_map]
      cases links[i]? with
      | none => simp
      | some l => simp [ih]
    rw [ways_eq]
    cases hop with
    | incoming i => simp [follow?, ← hlinks]
    | outgoing i => simp [follow?, ← hlinks]

/-- No way is listed twice. -/
theorem NodeRecord.nodup_ways (r : NodeRecord) : r.ways.Nodup := by
  induction r using peerInduction with
  | step r ih =>
    have hnumbered : ∀ links : List (Link NodeRecord), (∀ l ∈ links, l.peer.ways.Nodup) →
        (numbered (links.map fun l => l.peer.ways)).Nodup := by
      intro links h
      refine nodup_numbered fun as has => ?_
      obtain ⟨l, hl, rfl⟩ := List.mem_map.mp has
      exact h l hl
    rw [ways_eq, List.nodup_cons, List.nodup_append]
    refine ⟨by simp, ?_, ?_, ?_⟩
    · refine List.Nodup.map ?_ (hnumbered r.incoming fun l hl => ih l (List.mem_append_left _ hl))
      rintro ⟨i, v⟩ ⟨j, w⟩ h
      obtain ⟨⟨rfl⟩, rfl⟩ := List.cons.inj h
      rfl
    · refine List.Nodup.map ?_ (hnumbered r.outgoing fun l hl => ih l (List.mem_append_right _ hl))
      rintro ⟨i, v⟩ ⟨j, w⟩ h
      obtain ⟨⟨rfl⟩, rfl⟩ := List.cons.inj h
      rfl
    · intro v hv w hw hvw
      obtain ⟨x, -, rfl⟩ := List.mem_map.mp hv
      obtain ⟨y, -, rfl⟩ := List.mem_map.mp hw
      exact Hop.noConfusion (List.cons.inj hvw).1

/-- **The ways of a record** lead, in their order, to the records of its listing. -/
theorem NodeRecord.map_follow?_ways (r : NodeRecord) : r.ways.map r.follow? = r.listing.map some := by
  induction r using peerInduction with
  | step r ih =>
    have hlinks : ∀ links : List (Link NodeRecord),
        (∀ l ∈ links, l.peer.ways.map l.peer.follow? = l.peer.listing.map some) →
        (numbered (links.map fun l => l.peer.ways)).map
            (fun x => (links[x.1]?).bind fun l => l.peer.follow? x.2)
          = (links.flatMap fun l => l.peer.listing).map some := by
      intro links h
      rw [map_numbered (fun l way => l.peer.follow? way)
        fun i l way hl => by rw [hl, Option.bind_some], List.map_flatMap]
      exact List.flatMap_congr h
    rw [ways_eq, listing_eq, List.map_cons, List.map_cons, List.map_append, List.map_map, List.map_map,
      List.flatMap_append, List.map_append]
    congr 1
    congr 1
    · exact hlinks r.incoming fun l hl => ih l (List.mem_append_left _ hl)
    · exact hlinks r.outgoing fun l hl => ih l (List.mem_append_right _ hl)

/-! ## Places -/

namespace Plan

/-- The record at a place: at the end of a way from a listed record. -/
def at? (p : Plan) (place : Nat × List Hop) : Option NodeRecord :=
  (p.listed[place.1]?).bind fun r => r.follow? place.2

/-- The places of a plan, listed record by listed record. -/
def places (p : Plan) : List (Nat × List Hop) := numbered (p.listed.map NodeRecord.ways)

theorem mem_places {p : Plan} {place : Nat × List Hop} : place ∈ p.places ↔ (p.at? place).isSome := by
  obtain ⟨i, way⟩ := place
  rw [places, mem_numbered, List.getElem?_map, at?]
  cases p.listed[i]? with
  | none => simp
  | some r => simp [NodeRecord.mem_ways]

theorem nodup_places (p : Plan) : p.places.Nodup := by
  refine nodup_numbered fun as has => ?_
  obtain ⟨r, -, rfl⟩ := List.mem_map.mp has
  exact r.nodup_ways

/-- **The places of a plan** hold, in their order, the records that the traversal visits. -/
theorem map_at?_places (p : Plan) : p.places.map p.at? = p.records.map some := by
  rw [places, map_numbered NodeRecord.follow?
    fun i r way hr => by rw [at?, hr, Option.bind_some], records_eq, List.map_flatMap]
  exact List.flatMap_congr fun r _ => r.map_follow?_ways

/-- A record is visited just if it stands at a place. -/
theorem mem_records_iff {p : Plan} {r : NodeRecord} : r ∈ p.records ↔ ∃ place, p.at? place = some r := by
  have hmem : some r ∈ p.places.map p.at? ↔ r ∈ p.records := by
    rw [map_at?_places, List.mem_map]
    simp
  rw [← hmem, List.mem_map]
  constructor
  · rintro ⟨place, -, h⟩
    exact ⟨place, h⟩
  · rintro ⟨place, h⟩
    exact ⟨place, mem_places.mpr (by rw [h, Option.isSome_some]), h⟩

end Plan

/-! ## First occurrences -/

/-- What is kept is what has not been seen, without what comes again. -/
theorem distinctFrom_eq (seen ids : List NodeId) :
    distinctFrom seen ids = (ids.filter fun id => id ∉ seen).eraseDups := by
  induction ids generalizing seen with
  | nil => rfl
  | cons b bs ih =>
    by_cases hb : b ∈ seen
    · rw [distinctFrom_cons_of_mem hb, ih, List.filter_cons_of_neg (by simpa using hb)]
    · rw [distinctFrom_cons_of_not_mem hb, ih, List.filter_cons_of_pos (by simpa using hb),
        List.eraseDups_cons, List.filter_filter]
      congr 2
      refine List.filter_congr fun id _ => ?_
      rw [Bool.eq_iff_iff]
      simp [not_or]

/-- **The identifiers of a plan** are those of its records, each at its first occurrence. -/
theorem Plan.ids_eq (p : Plan) : p.ids = (p.records.map (·.id)).eraseDups := by
  rw [ids, distinctFrom_eq, List.filter_eq_self.mpr]
  intro id _
  exact decide_eq_true List.not_mem_nil

/-- An identifier is listed just if a record with it stands at a place of the plan. -/
theorem Plan.mem_ids_iff {p : Plan} {id : NodeId} :
    id ∈ p.ids ↔ ∃ place r, p.at? place = some r ∧ r.id = id := by
  rw [ids, mem_distinctFrom, List.mem_map]
  constructor
  · rintro ⟨⟨r, hr, hid⟩, -⟩
    obtain ⟨place, hplace⟩ := mem_records_iff.mp hr
    exact ⟨place, r, hplace, hid⟩
  · rintro ⟨place, r, hplace, hid⟩
    exact ⟨⟨r, mem_records_iff.mpr ⟨place, hplace⟩, hid⟩, List.not_mem_nil⟩

/-! ## The whole traversal -/

/-- **Traversal of a plan.**

Started on any record, the walk lists what the recursion does: the loop over the stack has visited the
beginning of the record's listing after any number of turns, and it stops at its end. A listing is a record,
then the listings of the peers of its incoming links in order, and then those of its outgoing links. The
records of a plan are the listings of the records of its stages, in order. They stand one for one at the places
of the plan, which are all there are and come once each. The identifiers are those of the records with only the
first occurrence of each kept; none comes twice, and they are those that occur at some place. -/
theorem Plan.traversal (p : Plan) :
    (∀ r, walk [r] = r.listing
      ∧ ∀ visited n, (Visit.turn^[n] ⟨visited, [r]⟩).visited = visited ++ r.listing.take n
        ∧ ((Visit.turn^[n] ⟨visited, [r]⟩).stack = [] ↔ r.listing.length ≤ n))
    ∧ (∀ r : NodeRecord, r.listing = r :: (r.incoming.flatMap (fun l => l.peer.listing)
        ++ r.outgoing.flatMap fun l => l.peer.listing))
    ∧ p.records = p.stages.flatMap (fun st => st.records.flatMap NodeRecord.listing)
    ∧ (∃ places : List (Nat × List Hop), places.Nodup ∧ (∀ place, place ∈ places ↔ (p.at? place).isSome)
        ∧ places.map p.at? = p.records.map some)
    ∧ p.ids = (p.records.map (·.id)).eraseDups
    ∧ p.ids.Nodup
    ∧ ∀ id, id ∈ p.ids ↔ ∃ place r, p.at? place = some r ∧ r.id = id := by
  refine ⟨?_, ?_, ?_, ?_, p.ids_eq, nodup_distinctFrom [] _, fun id => mem_ids_iff⟩
  · intro r
    refine ⟨by rw [walk_eq, List.flatMap_singleton], ?_⟩
    intro visited n
    have hahead : Visit.ahead ⟨visited, [r]⟩ = r.listing := List.flatMap_singleton NodeRecord.listing r
    rw [Visit.turns_stack_eq_nil, (Visit.turns_spec _ n).1, hahead]
    exact ⟨rfl, Iff.rfl⟩
  · intro r
    rw [← List.flatMap_append]
    exact r.listing_eq
  · rw [records_eq, listed, List.flatMap_assoc]
  · exact ⟨p.places, p.nodup_places, fun place => mem_places, p.map_at?_places⟩

end StageFlow
