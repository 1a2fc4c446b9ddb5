import SayFirst.Lib.JsonRound

/-!
# Members by key

`arranged` is a value with the members of each object in the order of their keys: the form a
value has once it has been written and read.

* `dumps_arranged` — it is written as the value is.
* `loads_dumps_arranged` — what is written of a value is read as its arranged form.
* `get_arrange` — a member is found as it was, arranged.
-/

namespace SayFirst.Py.Json

/-- Members in the order of their keys. -/
def sortedMembers (members : List (Str × Json)) : List (Str × Json) :=
  members.insertionSort fun a b => Str.le a.1 b.1

mutual

/-- The value with the members of each object in the order of their keys. -/
def arranged : Json → Json
  | .null => .null
  | .bool b => .bool b
  | .int n => .int n
  | .float f => .float f
  | .str s => .str s
  | .arr items => .arr (arrangedItems items)
  | .obj members => .obj (sortedMembers (arrangedMembers members))

def arrangedItems : List Json → List Json
  | [] => []
  | v :: vs => arranged v :: arrangedItems vs

def arrangedMembers : List (Str × Json) → List (Str × Json)
  | [] => []
  | (k, v) :: ms => (k, arranged v) :: arrangedMembers ms

end

/-- The members of an object, arranged. -/
def arrange (members : List (Str × Json)) : List (Str × Json) :=
  sortedMembers (arrangedMembers members)

@[simp] theorem arranged_obj {members : List (Str × Json)} :
    arranged (.obj members) = .obj (arrange members) := by
  rw [arranged, arrange]

mutual

/-- A value as `json.loads` answers one: floats of `F`, no surrogate pair, each key of an object
once. -/
def Plain (F : PyFloat → Prop) : Json → Prop
  | .null => True
  | .bool _ => True
  | .int _ => True
  | .float f => F f
  | .str s => spelled s = true
  | .arr items => PlainItems F items
  | .obj members => PlainMembers F members ∧ (members.map (·.1)).Nodup

def PlainItems (F : PyFloat → Prop) : List Json → Prop
  | [] => True
  | v :: vs => Plain F v ∧ PlainItems F vs

def PlainMembers (F : PyFloat → Prop) : List (Str × Json) → Prop
  | [] => True
  | (k, v) :: ms => spelled k = true ∧ Plain F v ∧ PlainMembers F ms

end

variable {F : PyFloat → Prop} {repr : PyFloat → Str} {float : Str → PyFloat}
  {members : List (Str × Json)}

theorem arrangedItems_eq : ∀ items, arrangedItems items = items.map arranged
  | [] => rfl
  | v :: vs => by rw [arrangedItems, arrangedItems_eq vs, List.map_cons]

theorem arrangedMembers_eq : ∀ members,
    arrangedMembers members = members.map fun m => (m.1, arranged m.2)
  | [] => rfl
  | (k, v) :: ms => by rw [arrangedMembers, arrangedMembers_eq ms, List.map_cons]

/-! ## Order -/

/-- What changes the values of members leaves their order. -/
theorem map_sortedMembers {α : Type} (f : Json → α) :
    (sortedMembers members).map (fun m => (m.1, f m.2)) =
      (members.map fun m => (m.1, f m.2)).insertionSort fun a b => Str.le a.1 b.1 :=
  List.map_insertionSort (fun a b : Str × Json => Str.le a.1 b.1 = true)
    (fun a b : Str × α => Str.le a.1 b.1 = true) _ members fun _ _ _ _ => Iff.rfl

theorem dumpsMembers_sorted : dumpsMembers repr (sortedMembers members) =
    byKey (dumpsMembers repr members) := by
  rw [dumpsMembers_eq, dumpsMembers_eq, map_sortedMembers, byKey]

theorem arrangedMembers_sorted :
    arrangedMembers (sortedMembers members) = sortedMembers (arrangedMembers members) := by
  rw [arrangedMembers_eq, arrangedMembers_eq, map_sortedMembers, sortedMembers]

theorem sortedMembers_perm : (sortedMembers members).Perm members := List.perm_insertionSort _ _

instance {α : Type} : Std.Total fun a b : Str × α => Str.le a.1 b.1 = true :=
  ⟨fun a b => Str.le_total a.1 b.1⟩

instance {α : Type} : IsTrans (Str × α) fun a b => Str.le a.1 b.1 = true :=
  ⟨fun a b c => Str.le_trans a.1 b.1 c.1⟩

theorem sortedMembers_sorted :
    (sortedMembers members).Pairwise fun a b => Str.le a.1 b.1 = true :=
  List.pairwise_insertionSort _ _

theorem sortedMembers_idem : sortedMembers (sortedMembers members) = sortedMembers members :=
  sortedMembers_sorted.insertionSort_eq

theorem keys_arrangedMembers : (arrangedMembers members).map (·.1) = members.map (·.1) := by
  rw [arrangedMembers_eq, List.map_map]
  rfl

theorem nodup_arrange (h : (members.map (·.1)).Nodup) : ((arrange members).map (·.1)).Nodup := by
  rw [← keys_arrangedMembers] at h
  exact (sortedMembers_perm.map (·.1)).nodup_iff.2 h

/-- Sorted members with distinct keys stand in the order of their keys. -/
theorem keySorted_arrange (h : (members.map (·.1)).Nodup) : KeySorted (arrange members) := by
  have hne : (arrange members).Pairwise fun a b => a.1 ≠ b.1 := by
    have := nodup_arrange h
    rwa [List.Nodup, List.pairwise_map] at this
  exact sortedMembers_sorted.and hne

/-! ## What is written -/

mutual

/-- **An arranged value is written as the value is.** -/
theorem dumps_arranged : ∀ v, dumps repr (arranged v) = dumps repr v
  | .null => rfl
  | .bool _ => rfl
  | .int _ => rfl
  | .float _ => rfl
  | .str _ => rfl
  | .arr items => by rw [arranged, dumps, dumps, dumpsItems_arranged items]
  | .obj members => by
    have hsorted : byKey (byKey (dumpsMembers repr members)) = byKey (dumpsMembers repr members) :=
      List.Pairwise.insertionSort_eq (List.pairwise_insertionSort _ _)
    rw [arranged, dumps, dumps, dumpsMembers_sorted, dumpsMembers_arranged members, hsorted]

theorem dumpsItems_arranged : ∀ vs, dumpsItems repr (arrangedItems vs) = dumpsItems repr vs
  | [] => rfl
  | v :: vs => by
    rw [arrangedItems, dumpsItems, dumpsItems, dumps_arranged v, dumpsItems_arranged vs]

theorem dumpsMembers_arranged : ∀ ms, dumpsMembers repr (arrangedMembers ms) = dumpsMembers repr ms
  | [] => rfl
  | (k, v) :: ms => by
    rw [arrangedMembers, dumpsMembers, dumpsMembers, dumps_arranged v, dumpsMembers_arranged ms]

end

theorem canonicalMembers_iff : ∀ {ms : List (Str × Json)}, CanonicalMembers F ms ↔
    ∀ m ∈ ms, spelled m.1 = true ∧ CanonicalWith F m.2
  | [] => by simp [CanonicalMembers]
  | (k, v) :: ms => by simp [CanonicalMembers, canonicalMembers_iff, and_assoc]

theorem plainMembers_iff : ∀ {ms : List (Str × Json)}, PlainMembers F ms ↔
    ∀ m ∈ ms, spelled m.1 = true ∧ Plain F m.2
  | [] => by simp [PlainMembers]
  | (k, v) :: ms => by simp [PlainMembers, plainMembers_iff, and_assoc]

mutual

/-- An arranged value is canonical. -/
theorem canonical_arranged : ∀ {v : Json}, Plain F v → CanonicalWith F (arranged v)
  | .null, _ => trivial
  | .bool _, _ => trivial
  | .int _, _ => trivial
  | .float _, h => h
  | .str _, h => h
  | .arr items, h => canonicalItems_arranged h
  | .obj members, h => by
    refine ⟨canonicalMembers_iff.2 fun m hm => ?_, keySorted_arrange h.2⟩
    exact canonicalMembers_iff.1 (canonicalMembers_arranged h.1) m
      (sortedMembers_perm.mem_iff.1 hm)

theorem canonicalItems_arranged : ∀ {vs : List Json}, PlainItems F vs →
    CanonicalItems F (arrangedItems vs)
  | [], _ => trivial
  | _ :: _, h => ⟨canonical_arranged h.1, canonicalItems_arranged h.2⟩

theorem canonicalMembers_arranged : ∀ {ms : List (Str × Json)}, PlainMembers F ms →
    CanonicalMembers F (arrangedMembers ms)
  | [], _ => trivial
  | (_, _) :: _, h => ⟨h.1, canonical_arranged h.2.1, canonicalMembers_arranged h.2.2⟩

end

mutual

/-- An arranged value is as `json.loads` answers one. -/
theorem plain_arranged : ∀ {v : Json}, Plain F v → Plain F (arranged v)
  | .null, _ => trivial
  | .bool _, _ => trivial
  | .int _, _ => trivial
  | .float _, h => h
  | .str _, h => h
  | .arr _, h => plainItems_arranged h
  | .obj members, h => by
    rw [arranged_obj]
    refine ⟨plainMembers_iff.2 fun m hm => ?_, nodup_arrange h.2⟩
    exact plainMembers_iff.1 (plainMembers_arranged h.1) m (sortedMembers_perm.mem_iff.1 hm)

theorem plainItems_arranged : ∀ {vs : List Json}, PlainItems F vs →
    PlainItems F (arrangedItems vs)
  | [], _ => trivial
  | _ :: _, h => ⟨plain_arranged h.1, plainItems_arranged h.2⟩

theorem plainMembers_arranged : ∀ {ms : List (Str × Json)}, PlainMembers F ms →
    PlainMembers F (arrangedMembers ms)
  | [], _ => trivial
  | (_, _) :: _, h => ⟨h.1, plain_arranged h.2.1, plainMembers_arranged h.2.2⟩

end

/-- **What is written of a value is read as the value, arranged.** -/
theorem loads_dumps_arranged (hF : ∀ f, F f → FloatReads repr float f) {v : Json} (h : Plain F v) :
    loads float (dumps repr v) = some (arranged v) := by
  rw [← dumps_arranged v]
  exact loads_dumpsWith hF (canonical_arranged h)

/-- Values that are written alike are alike, arranged. -/
theorem arranged_of_dumps (hF : ∀ f, F f → FloatReads repr float f) {v w : Json}
    (hv : Plain F v) (hw : Plain F w) (h : dumps repr v = dumps repr w) :
    arranged v = arranged w := by
  have hread := loads_dumps_arranged hF hv
  rw [h, loads_dumps_arranged hF hw] at hread
  exact (Option.some.inj hread).symm

/-! ## What is found -/

theorem lookup_perm {α β : Type} [BEq α] [LawfulBEq α] {l l' : List (α × β)} (hperm : l.Perm l')
    (h : (l.map (·.1)).Nodup) (key : α) : l.lookup key = l'.lookup key := by
  induction hperm with
  | nil => rfl
  | cons a _ ih =>
    obtain ⟨k, v⟩ := a
    rw [List.lookup_cons, List.lookup_cons, ih (List.nodup_cons.1 h).2]
  | swap a b l =>
    obtain ⟨k, v⟩ := a
    obtain ⟨k', v'⟩ := b
    have hne : k' ≠ k := by
      intro heq
      exact (List.nodup_cons.1 h).1 (heq ▸ List.mem_cons_self)
    simp only [List.lookup_cons]
    cases hk : key == k with
    | false => rfl
    | true =>
      have hk' : (key == k') = false := by
        rw [eq_of_beq hk]
        exact beq_false_of_ne (Ne.symm hne)
      rw [hk']
  | trans hperm _ ih ih' =>
    exact (ih h).trans (ih' ((hperm.map (·.1)).nodup_iff.1 h))

theorem lookup_arrangedMembers {key : Str} : ∀ ms : List (Str × Json),
    (arrangedMembers ms).lookup key = (ms.lookup key).map arranged
  | [] => rfl
  | (k, v) :: ms => by
    rw [arrangedMembers, List.lookup_cons, List.lookup_cons, lookup_arrangedMembers ms]
    cases key == k <;> rfl

/-- **A member is found as it was, arranged.** -/
theorem get_arrange (h : (members.map (·.1)).Nodup) (key : String) :
    Json.get (arrange members) key = (Json.get members key).map arranged := by
  rw [← @keys_arrangedMembers members] at h
  unfold Json.get
  rw [← lookup_arrangedMembers]
  exact (lookup_perm sortedMembers_perm.symm h (lit key)).symm

/-! ## Twice -/

mutual

theorem arranged_idem : ∀ v, arranged (arranged v) = arranged v
  | .null => rfl
  | .bool _ => rfl
  | .int _ => rfl
  | .float _ => rfl
  | .str _ => rfl
  | .arr items => by rw [arranged, arranged, arrangedItems_idem items]
  | .obj members => by
    rw [arranged, arranged, arrangedMembers_sorted, arrangedMembers_idem members,
      sortedMembers_idem]

theorem arrangedItems_idem : ∀ vs, arrangedItems (arrangedItems vs) = arrangedItems vs
  | [] => rfl
  | v :: vs => by rw [arrangedItems, arrangedItems, arranged_idem v, arrangedItems_idem vs]

theorem arrangedMembers_idem : ∀ ms, arrangedMembers (arrangedMembers ms) = arrangedMembers ms
  | [] => rfl
  | (k, v) :: ms => by
    rw [arrangedMembers, arrangedMembers, arranged_idem v, arrangedMembers_idem ms]

end

theorem arrange_idem : arrange (arrange members) = arrange members := by
  have h := arranged_idem (.obj members)
  simp only [arranged_obj] at h
  exact Json.obj.inj h

end SayFirst.Py.Json
