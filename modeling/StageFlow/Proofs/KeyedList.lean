import StageFlow.Controller
import StageFlow.Proofs.KeyedVec

/-!
# Keyed vectors as lists

A keyed vector is a list of items with distinct keys in which nothing has to be searched for. Whatever is
done with it, as long as writing in place keeps the keys, it shows what the list shows to a search from the
front, and gives the answers that the list gives.

## Contents
- **Operations.** `Operation`, on a vector and on a list, and sequences of them.
- **Views.** `Shows`, all that can be seen of a vector.
- **Steps.** One operation on a vector and on its items.
- **Runs.** `refines_list`.
-/

namespace StageFlow.KeyedVec

variable {κ α : Type} [DecidableEq κ] [Keyed κ α]

/-! ## Operations -/

/-- What can be done with a keyed vector. Since no two items have the same key, a function that writes to
all of them in place can do something else to each. -/
inductive Operation (κ α : Type)
  | push (a : α)
  | insertWith (key : κ) (create : Unit → α)
  | erase (key : κ)
  /-- Writes to the item of a key in place. -/
  | modifyKey (key : κ) (f : α → α)
  /-- Writes to the item at an index in place. -/
  | setAt (index : Nat) (f : α → α)
  /-- Writes to all items in place. -/
  | mapItems (f : α → α)
  /-- Puts a vector that is read off a document in the place of the one at hand. -/
  | read (item : Reader α) (p : Place) (t : Term)

/-- What an operation gives back. -/
inductive Answer (α : Type)
  | index (i : Nat)
  | item (a : Option α)
  /-- Was there an item to write to? -/
  | found (b : Bool)
  | done
  | fault (f : PlacedFault)
  | breach (b : Breach)

namespace Operation

/-- An operation on a vector. -/
def onVec (v : KeyedVec κ α) : Operation κ α → KeyedVec κ α × Answer α
  | push a =>
    match v.push a with
    | .ok (w, i) => (w, .index i)
    | .error b => (v, .breach b)
  | insertWith key create =>
    match v.insertWith key create with
    | .ok (w, i) => (w, .index i)
    | .error b => (v, .breach b)
  | erase key =>
    match v.erase key with
    | (w, .ok a) => (w, .item a)
    | (w, .error b) => (w, .breach b)
  | modifyKey key f =>
    match v.modifyKey key f with
    | .ok (w, b) => (w, .found b)
    | .error b => (v, .breach b)
  | setAt i f =>
    match v.setAt i f with
    | .ok w => (w, .done)
    | .error b => (v, .breach b)
  | mapItems f => (v.mapItems f, .done)
  | read item p t =>
    match reader item p t with
    | .ok w => (w, .done)
    | .error f => (v, .fault f)

/-- The operation on a list, with a search from the front wherever there is a key. -/
def onList (l : List α) : Operation κ α → List α × Answer α
  | push a =>
    match l.findIdx? fun b => Keyed.key b = Keyed.key a with
    | some i => (l.set i a, .index i)
    | none => (l ++ [a], .index l.length)
  | insertWith key create =>
    match l.findIdx? fun b => Keyed.key b = key with
    | some i => (l, .index i)
    | none =>
      if Keyed.key (create ()) = key then (l ++ [create ()], .index l.length)
      else (l, .breach .wrongKey)
  | erase key => (l.eraseP fun b => Keyed.key b = key, .item (l.find? fun b => Keyed.key b = key))
  | modifyKey key f =>
    match l.findIdx? fun b => Keyed.key b = key with
    | some i => (l.modify i f, .found true)
    | none => (l, .found false)
  | setAt i f => (l.modify i f, .done)
  | mapItems f => (l.map f, .done)
  | read item p t =>
    match Reader.list item p t with
    | .ok as =>
      if (as.map Keyed.key).Nodup then (as, .done) else (l, .fault (Fault.repeatedKey.at .stop))
    | .error f => (l, .fault f)

/-- Writing in place is to items that are there, and keeps their keys. -/
def Keeps (l : List α) : Operation κ α → Prop
  | modifyKey key f => ∀ a ∈ l, Keyed.key a = key → Keyed.key (f a) = key
  | setAt i f => ∃ a, l[i]? = some a ∧ Keyed.key (f a) = Keyed.key a
  | mapItems f => ∀ a ∈ l, Keyed.key (f a) = Keyed.key a
  | _ => True

end Operation

/-- Operations on a vector, one after the other. -/
def runVec (v : KeyedVec κ α) : List (Operation κ α) → KeyedVec κ α × List (Answer α)
  | [] => (v, [])
  | op :: ops => ((runVec (op.onVec v).1 ops).1, (op.onVec v).2 :: (runVec (op.onVec v).1 ops).2)

/-- Operations on a list, one after the other. -/
def runList (l : List α) : List (Operation κ α) → List α × List (Answer α)
  | [] => (l, [])
  | op :: ops => ((runList (op.onList l).1 ops).1, (op.onList l).2 :: (runList (op.onList l).1 ops).2)

/-- Each operation keeps the keys of the items that it finds. -/
def Lawful (l : List α) : List (Operation κ α) → Prop
  | [] => True
  | op :: ops => op.Keeps l ∧ Lawful (op.onList l).1 ops

/-! ## Views -/

/-- All that can be seen of a vector is what a search from the front shows of a list. -/
structure Shows (v : KeyedVec κ α) (l : List α) : Prop where
  items : v.items = l
  distinct : (l.map Keyed.key).Nodup
  sizes : v.positions.length = l.length
  /-- No key has two positions. -/
  single : (v.positions.map Prod.fst).Nodup
  /-- The positions are those of the items, and no others. -/
  places : ∀ key i, v.position? key = some i ↔ ∃ a, l[i]? = some a ∧ Keyed.key a = key
  size : v.size = .ok l.length
  isEmpty : v.isEmpty = .ok l.isEmpty
  contains : ∀ key, v.contains key = l.any fun a => Keyed.key a = key
  position? : ∀ key, v.position? key = l.findIdx? fun a => Keyed.key a = key
  get? : ∀ key, v.get? key = .ok (l.find? fun a => Keyed.key a = key)
  at? : ∀ i a, l[i]? = some a → v.at? i = .ok a
  validate : v.validate = .ok ()

/-- A vector whose positions and items agree shows its items. -/
theorem Indexed.shows {v : KeyedVec κ α} (h : v.Indexed) : v.Shows v.items where
  items := rfl
  distinct := h.nodup_keys
  sizes := h.sizes.symm
  single := h.nodup_positions
  places key i := by
    rw [h.position?_eq_some, keys, List.getElem?_map, Option.map_eq_some_iff]
  size := by rw [KeyedVec.size, if_pos h.sizes]
  isEmpty := by
    rw [KeyedVec.isEmpty, KeyedVec.size, if_pos h.sizes]
    rfl
  contains key := by
    rw [KeyedVec.contains, h.position?_eq, List.findIdx?_isSome]
  position? := h.position?_eq
  get? := h.get?_eq
  at? i a ha := by rw [KeyedVec.at?, ha]
  validate := h.validate_eq

/-! ## Steps -/

/-- **An operation does to a vector what it does to its items,** and gives the same answer. -/
theorem Operation.onVec_eq {v : KeyedVec κ α} (h : v.Indexed) {op : Operation κ α}
    (hk : op.Keeps v.items) :
    (op.onVec v).1.Indexed ∧ (op.onVec v).1.items = (op.onList v.items).1
      ∧ (op.onVec v).2 = (op.onList v.items).2 := by
  cases op with
  | push a =>
    obtain ⟨w, heq, hw, hitems⟩ := h.push a
    rw [h.position?_eq] at heq hitems
    simp only [onVec, onList, heq]
    cases hfind : v.items.findIdx? fun b => Keyed.key b = Keyed.key a with
    | none => exact ⟨hw, by rw [hitems, hfind], rfl⟩
    | some i => exact ⟨hw, by rw [hitems, hfind], rfl⟩
  | insertWith key create =>
    simp only [onVec, onList, KeyedVec.insertWith, h.position?_eq]
    cases hfind : v.items.findIdx? fun b => Keyed.key b = key with
    | some i => exact ⟨h, rfl, rfl⟩
    | none =>
      by_cases hkey : Keyed.key (create ()) = key
      · -- the item made has the key that nothing was found for, so it goes to the end
        obtain ⟨w, heq, hw, hitems⟩ := h.push (create ())
        rw [hkey, h.position?_eq, hfind] at heq hitems
        simp only [hkey, if_true, heq]
        exact ⟨hw, hitems, rfl⟩
      · simp only [hkey, if_false]
        exact ⟨h, trivial, trivial⟩
  | erase key =>
    obtain ⟨w, heq, hw, hitems⟩ := h.erase key
    simp only [onVec, onList, heq]
    exact ⟨hw, hitems, rfl⟩
  | modifyKey key f =>
    obtain ⟨w, heq, hw, hitems⟩ := h.modifyKey hk
    rw [h.position?_eq] at heq hitems
    simp only [onVec, onList, heq]
    cases hfind : v.items.findIdx? fun b => Keyed.key b = key with
    | none => exact ⟨hw, by rw [hitems, hfind], rfl⟩
    | some i => exact ⟨hw, by rw [hitems, hfind], rfl⟩
  | setAt i f =>
    obtain ⟨a, ha, hf⟩ := hk
    obtain ⟨w, heq, hw, hitems⟩ := h.setAt ha hf
    simp only [onVec, onList, heq]
    exact ⟨hw, hitems, trivial⟩
  | mapItems f => exact ⟨h.mapItems hk, rfl, rfl⟩
  | read item p t =>
    simp only [onVec, onList]
    cases hr : Reader.list item p t with
    | error fault =>
      rw [reader_of_error hr]
      exact ⟨h, rfl, rfl⟩
    | ok as =>
      rw [reader_of_ok hr]
      by_cases hd : (as.map Keyed.key).Nodup
      · simp only [hd, if_true]
        exact ⟨(Indexed.of_ofItems? (ofItems?_eq_some.mpr ⟨hd, rfl⟩)).1, trivial, trivial⟩
      · simp only [hd, if_false]
        exact ⟨h, trivial, trivial⟩

/-- An operation on a list breaks off only if it is to make an item for a new key, and makes one with
another. -/
theorem Operation.onList_breach {l : List α} {op : Operation κ α} {b : Breach} :
    (op.onList l).2 = .breach b ↔ b = .wrongKey ∧ ∃ key create, op = .insertWith key create
      ∧ key ∉ l.map Keyed.key ∧ Keyed.key (create ()) ≠ key := by
  have hnew : ∀ key : κ, (l.findIdx? fun a => Keyed.key a = key) = none ↔ key ∉ l.map Keyed.key := by
    intro key
    rw [List.findIdx?_eq_none_iff]
    simp
  constructor
  · intro h
    cases op with
    | insertWith key create =>
      simp only [onList] at h
      cases hfind : l.findIdx? fun a => Keyed.key a = key with
      | some i =>
        rw [hfind] at h
        exact absurd h (by simp)
      | none =>
        by_cases hkey : Keyed.key (create ()) = key
        · rw [hfind, if_pos hkey] at h
          exact absurd h (by simp)
        · rw [hfind, if_neg hkey] at h
          exact ⟨(Answer.breach.inj h).symm, key, create, rfl, (hnew key).mp hfind, hkey⟩
    | push a =>
      simp only [onList] at h
      split at h <;> cases h
    | erase key => cases h
    | modifyKey key f =>
      simp only [onList] at h
      split at h <;> cases h
    | setAt i f => cases h
    | mapItems f => cases h
    | read item p t =>
      simp only [onList] at h
      split at h
      · split at h <;> cases h
      · cases h
  · rintro ⟨rfl, key, create, rfl, hout, hkey⟩
    simp only [onList, (hnew key).mpr hout, if_neg hkey]

/-! ## Runs -/

/-- **What operations do to a vector they do to its items,** one after the other. -/
theorem runVec_eq {v : KeyedVec κ α} (h : v.Indexed) {ops : List (Operation κ α)}
    (hl : Lawful v.items ops) :
    (runVec v ops).1.Indexed ∧ (runVec v ops).1.items = (runList v.items ops).1
      ∧ (runVec v ops).2 = (runList v.items ops).2 := by
  induction ops generalizing v with
  | nil => exact ⟨h, rfl, rfl⟩
  | cons op ops ih =>
    obtain ⟨hk, hrest⟩ := hl
    obtain ⟨hindexed, hitems, hanswer⟩ := op.onVec_eq h hk
    rw [← hitems] at hrest
    obtain ⟨hfinal, hshown, hanswers⟩ := ih hindexed hrest
    rw [hitems] at hshown hanswers
    exact ⟨hfinal, hshown, congrArg₂ List.cons hanswer hanswers⟩

/-- **A keyed vector refines a list with distinct keys.** Whether it starts without items or is read off a
document, and whatever is then done with it in keeping with the keys, it answers as the list does and shows
what the list shows. An operation breaks off only if it makes an item for a new key and the item has another
one, and then it leaves the vector as it was. -/
theorem refines_list {v : KeyedVec κ α} (hv : v = .empty ∨ ∃ item p t, reader item p t = .ok v)
    {ops : List (Operation κ α)} (hl : Lawful v.items ops) :
    (runVec v ops).2 = (runList v.items ops).2
      ∧ (runVec v ops).1.Shows (runList v.items ops).1
      ∧ ∀ op : Operation κ α, op.Keeps (runList v.items ops).1 → ∀ b,
        ((op.onVec (runVec v ops).1).2 = .breach b
          ↔ b = .wrongKey ∧ ∃ key create, op = .insertWith key create
            ∧ key ∉ (runList v.items ops).1.map Keyed.key ∧ Keyed.key (create ()) ≠ key)
        ∧ ((op.onVec (runVec v ops).1).2 = .breach b
          → (op.onVec (runVec v ops).1).1 = (runVec v ops).1) := by
  have hindexed : v.Indexed := by
    rcases hv with rfl | ⟨item, p, t, hr⟩
    · exact .empty
    · exact .of_reader hr
  obtain ⟨hfinal, hitems, hanswers⟩ := runVec_eq hindexed hl
  refine ⟨hanswers, hitems ▸ hfinal.shows, fun op hk b => ?_⟩
  rw [← hitems] at hk ⊢
  obtain ⟨_, _, hanswer⟩ := op.onVec_eq hfinal hk
  rw [hanswer]
  refine ⟨Operation.onList_breach, fun hb => ?_⟩
  obtain ⟨_, key, create, rfl, _⟩ := Operation.onList_breach.mp hb
  cases hi : (runVec v ops).1.insertWith key create with
  | error _ => rw [Operation.onVec, hi]
  | ok x =>
    rw [Operation.onVec, hi] at hanswer
    exact absurd (hanswer.trans hb) (by simp)

/-- An item that is removed and made again comes last, and is found there. -/
theorem refines_list_sample :
    ∃ ops : List (Operation NodeId Controller), Lawful [] ops
      ∧ (runVec .empty ops).1.position? ⟨"a"⟩ = some 1 := by
  have hlawful : Lawful []
      [.push ⟨⟨"a"⟩, .failed, []⟩, .push ⟨⟨"b"⟩, .waiting, []⟩, .erase ⟨"a"⟩,
        .insertWith ⟨"a"⟩ fun _ => ⟨⟨"a"⟩, .waiting, []⟩, .mapItems Controller.reset] :=
    ⟨trivial, trivial, trivial, trivial, fun _ _ => rfl, trivial⟩
  obtain ⟨_, hshows, _⟩ := refines_list (Or.inl rfl) hlawful
  exact ⟨_, hlawful, hshows.position? ⟨"a"⟩⟩

end StageFlow.KeyedVec
