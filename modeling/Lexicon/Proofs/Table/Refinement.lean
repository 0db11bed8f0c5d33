import Mathlib
import Lexicon.Proofs.Table.Invariant

/-!
# Symbol tables as finite maps

Read through the arena its names live in, a table is a finite map from canonical names to symbol
records. Its bindings `Table.bindings` list each symbol's canonical name, id and kind, in key
order and slot by slot. On a well-formed table no name and no id is bound twice, and every
operation moves the bindings as the same operation moves a finite map.

* `Table.mem_bindings`: a binding is a symbol of the table whose name reads as the binding's.
* `Table.WellFormed.get_of_mem`, `get_of_not_mem`: a lookup of a bound name returns its id and
  changes nothing; a lookup of an unbound one binds it to a fresh id with no kind.
* `Table.WellFormed.find_bindings`, `setKind_bindings`: a search changes nothing and answers by
  the bindings; setting a kind changes the kind of that binding alone.
* `Table.WellFormed.nodeCount_eq`, `collisionCount_eq`: the nodes are the keys of the bound
  names, and the colliding nodes the keys shared by two names or more.
* `Table.ActsAsFiniteMap`, `Table.reachable_actsAsFiniteMap`: the laws, and that they hold in
  every reachable state.
-/

namespace Lexicon

namespace Bucket

variable {b : Bucket} {node : Nat}

/-- The symbols of a bucket with their ids in node `node`, slot by slot. -/
def withIds (b : Bucket) (node : Nat) : List (SymbolId × Symbol) :=
  b.symbols.toList.zipIdx.map fun (s, i) => (⟨node, i⟩, s)

theorem mem_withIds {id : SymbolId} {s : Symbol} :
    (id, s) ∈ b.withIds node ↔ id.node = node ∧ b.get? id.slot = some s := by
  obtain ⟨n, i⟩ := id
  simp only [withIds, List.mem_map, Prod.exists, Prod.mk.injEq, SymbolId.mk.injEq,
    List.mem_zipIdx_iff_getElem?, Array.getElem?_toList, get?]
  constructor
  · rintro ⟨s', i', hget, ⟨rfl, rfl⟩, rfl⟩
    exact ⟨rfl, hget⟩
  · rintro ⟨rfl, hget⟩
    exact ⟨s, i, hget, ⟨rfl, rfl⟩, rfl⟩

@[simp] theorem length_withIds : (b.withIds node).length = b.len := by
  simp [withIds, len]

theorem nodup_ids_withIds (b : Bucket) (node : Nat) : ((b.withIds node).map (·.1)).Nodup := by
  have h : (b.withIds node).map (·.1) =
      (b.symbols.toList.zipIdx.map Prod.snd).map (SymbolId.mk node) := by
    rw [withIds, List.map_map, List.map_map]
    rfl
  rw [h, List.zipIdx_map_snd]
  exact (List.nodup_range' 1 Nat.one_pos).map fun i j hij => (SymbolId.mk.inj hij).2

theorem withIds_push (s : Symbol) (cap : Nat) :
    (⟨b.symbols.push s, cap⟩ : Bucket).withIds node = b.withIds node ++ [(⟨node, b.len⟩, s)] := by
  simp [withIds, List.zipIdx_append, len]

/-- Changing slot `i` changes the symbol with that slot alone. -/
theorem withIds_modify (i : Nat) (f : Symbol → Symbol) :
    (b.modify i f).withIds node =
      (b.withIds node).map fun p => if p.1.slot = i then (p.1, f p.2) else p := by
  apply List.ext_getElem (by simp [withIds, modify])
  intro j h₁ h₂
  simp only [withIds, modify, List.getElem_map, List.getElem_zipIdx, Array.toList_modify,
    List.getElem_modify, Nat.zero_add]
  by_cases hj : j = i
  · simp [hj]
  · simp [hj, Ne.symm hj]

theorem name_mem_names {i : Nat} {s : Symbol} (h : b.get? i = some s) : s.name ∈ b.names :=
  List.mem_map_of_mem (Array.mem_toList_iff.mpr (Array.mem_of_getElem? h))

/-- In a bucket whose names read distinctly, two slots whose names read alike are one slot. -/
theorem slot_eq_of_resolve {a : Arena} (hd : (b.names.map a.resolve?).Nodup) {i j : Nat}
    {s s' : Symbol} (hs : b.get? i = some s) (hs' : b.get? j = some s')
    (hr : a.resolve? s.name = a.resolve? s'.name) : i = j := by
  obtain ⟨hi, rfl⟩ := Array.getElem?_eq_some_iff.mp hs
  obtain ⟨hj, rfl⟩ := Array.getElem?_eq_some_iff.mp hs'
  have hlen : ∀ k, k < b.symbols.size → k < (b.names.map a.resolve?).length := by
    simp [names]
  have hget : (b.names.map a.resolve?).get ⟨i, hlen i hi⟩ =
      (b.names.map a.resolve?).get ⟨j, hlen j hj⟩ := by
    simpa [names] using hr
  exact congrArg Fin.val (List.nodup_iff_injective_get.mp hd hget)

end Bucket

namespace Table

open Splay

variable {t t' : Table} {a a₁ a' : Arena} {n c : String} {node slot : Nat}
  {tree : SplayTree Bucket}

theorem iter_eq (t : Table) : t.iter = t.tree.entries.flatMap fun e => e.value.withIds e.id :=
  rfl

/-- The binding of a symbol: its name as it reads from `a`, its id and its kind; none when the
name does not read. -/
def bindingOf (a : Arena) (p : SymbolId × Symbol) : Option (String × SymbolId × Option Kind) :=
  (a.resolve? p.2.name).map fun c => (c, p.1, p.2.kind)

/-- The bindings of a table whose names live in `a`: each symbol's canonical name with its id
and kind, in key order and slot by slot. -/
def bindings (t : Table) (a : Arena) : List (String × SymbolId × Option Kind) :=
  t.iter.filterMap (bindingOf a)

theorem bindings_eq_flatMap (t : Table) (a : Arena) :
    t.bindings a =
      t.tree.entries.flatMap fun e => (e.value.withIds e.id).filterMap (bindingOf a) := by
  rw [bindings, iter_eq, List.filterMap_flatMap]

/-- In a tree with distinct numbers, the record behind an id is the symbol in that slot of the
entry with that number. -/
theorem symbol?_eq_some (hnd : (t.tree.entries.map (·.id)).Nodup) {id : SymbolId} {s : Symbol} :
    t.symbol? id = some s ↔
      ∃ e ∈ t.tree.entries, e.id = id.node ∧ e.value.get? id.slot = some s := by
  simp only [symbol?, SplayTree.value?, Option.bind_eq_some_iff, Option.map_eq_some_iff]
  constructor
  · rintro ⟨b, ⟨e, hf, rfl⟩, hs⟩
    obtain ⟨he, hid⟩ := (Tree.find?_eq_some_iff hnd).mp hf
    exact ⟨e, he, hid, hs⟩
  · rintro ⟨e, he, hid, hs⟩
    exact ⟨e.value, ⟨e, (Tree.find?_eq_some_iff hnd).mpr ⟨he, hid⟩, rfl⟩, hs⟩

theorem mem_iter (hnd : (t.tree.entries.map (·.id)).Nodup) {id : SymbolId} {s : Symbol} :
    (id, s) ∈ t.iter ↔ t.symbol? id = some s := by
  rw [symbol?_eq_some hnd, iter_eq, List.mem_flatMap]
  simp only [Bucket.mem_withIds]
  constructor
  · rintro ⟨e, he, hnode, hs⟩
    exact ⟨e, he, hnode.symm, hs⟩
  · rintro ⟨e, he, hid, hs⟩
    exact ⟨e, he, hid.symm, hs⟩

/-- A binding is a symbol of the table whose name reads as the binding's. -/
theorem mem_bindings (hnd : (t.tree.entries.map (·.id)).Nodup) {id : SymbolId} {k : Option Kind} :
    (c, id, k) ∈ t.bindings a ↔
      ∃ s, t.symbol? id = some s ∧ a.resolve? s.name = some c ∧ s.kind = k := by
  simp only [bindings, bindingOf, List.mem_filterMap, Option.map_eq_some_iff, Prod.mk.injEq,
    Prod.exists]
  constructor
  · rintro ⟨id', s, hp, c', hc, rfl, rfl, rfl⟩
    exact ⟨s, (mem_iter hnd).mp hp, hc, rfl⟩
  · rintro ⟨s, hs, hc, rfl⟩
    exact ⟨id, s, (mem_iter hnd).mpr hs, c, hc, rfl, rfl, rfl⟩

/-! ## Every symbol of a well-formed table is bound -/

/-- Each symbol of a node reads as a canonical name whose key is the node's. -/
theorem WellFormed.bindingOf_withIds (hw : t.WellFormed a) {e : Entry Bucket}
    (he : e ∈ t.tree.entries) {p : SymbolId × Symbol} (hp : p ∈ e.value.withIds e.id) :
    ∃ m, bindingOf a p = some (canonical m, p.1, p.2.kind) ∧
      t.hasher.hash (canonical m) = e.key := by
  obtain ⟨-, hget⟩ := Bucket.mem_withIds.mp hp
  obtain ⟨m, hr, hkey⟩ := (hw.buckets e he).named _ (Bucket.name_mem_names hget)
  exact ⟨m, by simp [bindingOf, hr], hkey⟩

theorem WellFormed.bindingOf_iter (hw : t.WellFormed a) {p : SymbolId × Symbol}
    (hp : p ∈ t.iter) : ∃ m, bindingOf a p = some (canonical m, p.1, p.2.kind) := by
  rw [iter_eq, List.mem_flatMap] at hp
  obtain ⟨e, he, hp⟩ := hp
  obtain ⟨m, hb, -⟩ := hw.bindingOf_withIds he hp
  exact ⟨m, hb⟩

/-- The bindings hold every symbol, with its id and kind, in the order of iteration. -/
theorem WellFormed.map_snd_bindings (hw : t.WellFormed a) :
    (t.bindings a).map (·.2) = t.iter.map fun p => (p.1, p.2.kind) := by
  rw [bindings, List.map_filterMap, ← List.filterMap_eq_map]
  refine List.filterMap_congr fun p hp => ?_
  obtain ⟨m, hb⟩ := hw.bindingOf_iter hp
  simp [hb]

/-- Same entries, and an arena that keeps every readable name: the same bindings. -/
theorem bindings_congr (hw : t.WellFormed a) (he : t'.tree.entries = t.tree.entries)
    (hk : a.Keeps a') : t'.bindings a' = t.bindings a := by
  rw [bindings, bindings, iter_eq, iter_eq, he]
  refine List.filterMap_congr fun p hp => ?_
  obtain ⟨m, hb⟩ := hw.bindingOf_iter (by rwa [iter_eq])
  simp only [bindingOf, Option.map_eq_some_iff] at hb ⊢
  obtain ⟨c, hr, -⟩ := hb
  rw [hr, hk _ _ hr]

theorem WellFormed.length_bindings (hw : t.WellFormed a) : (t.bindings a).length = t.len := by
  have hlen := congrArg List.length hw.map_snd_bindings
  rw [List.length_map, List.length_map] at hlen
  rw [hlen, iter_eq, List.length_flatMap, len, hw.count]
  simp

/-! ## No name and no id is bound twice -/

theorem nodup_ids_iter (hnd : (t.tree.entries.map (·.id)).Nodup) : (t.iter.map (·.1)).Nodup := by
  rw [iter_eq, List.map_flatMap, List.nodup_flatMap]
  refine ⟨fun e _ => Bucket.nodup_ids_withIds e.value e.id, ?_⟩
  -- the ids of two nodes differ in their node
  refine (List.pairwise_map.mp hnd).imp fun {x y} hxy => ?_
  intro id hx hy
  obtain ⟨⟨id', s⟩, hp, rfl⟩ := List.mem_map.mp hx
  obtain ⟨⟨id'', s'⟩, hp', hid⟩ := List.mem_map.mp hy
  simp only at hid
  subst hid
  exact hxy ((Bucket.mem_withIds.mp hp).1.symm.trans (Bucket.mem_withIds.mp hp').1)

theorem WellFormed.nodup_ids (hw : t.WellFormed a) : ((t.bindings a).map (·.2.1)).Nodup := by
  have h : (t.bindings a).map (·.2.1) = t.iter.map (·.1) := by
    have hfst := congrArg (List.map Prod.fst) hw.map_snd_bindings
    simpa [List.map_map, Function.comp_def] using hfst
  rw [h]
  exact nodup_ids_iter hw.tree.nodup

/-- Two bindings of one name are one binding: the names of a table read distinctly. -/
theorem WellFormed.binding_unique (hw : t.WellFormed a) {id id' : SymbolId} {k k' : Option Kind}
    (h : (c, id, k) ∈ t.bindings a) (h' : (c, id', k') ∈ t.bindings a) : id = id' ∧ k = k' := by
  have hnd := hw.tree.nodup
  obtain ⟨s, hs, hc, rfl⟩ := (mem_bindings hnd).mp h
  obtain ⟨s', hs', hc', rfl⟩ := (mem_bindings hnd).mp h'
  obtain ⟨e, he, hid, hget⟩ := (symbol?_eq_some hnd).mp hs
  obtain ⟨e', he', hid', hget'⟩ := (symbol?_eq_some hnd).mp hs'
  have hr : a.resolve? s.name = a.resolve? s'.name := hc.trans hc'.symm
  -- both names read as `c`, so they are in one bucket, and then in one slot
  have hee : e = e' :=
    hw.bucket_unique he he' (Bucket.name_mem_names hget) (Bucket.name_mem_names hget') hr
  subst hee
  have hslot := Bucket.slot_eq_of_resolve (hw.buckets e he).distinct hget hget' hr
  have hid_eq : id = id' := by
    cases id
    cases id'
    simp_all
  subst hid_eq
  rw [hs] at hs'
  cases hs'
  exact ⟨rfl, rfl⟩

theorem WellFormed.nodup_names (hw : t.WellFormed a) : ((t.bindings a).map (·.1)).Nodup := by
  have hnd : (t.bindings a).Nodup := hw.nodup_ids.of_map _
  refine hnd.map_on fun x hx y hy hxy => ?_
  obtain ⟨c, id, k⟩ := x
  obtain ⟨c', id', k'⟩ := y
  simp only at hxy
  subst hxy
  obtain ⟨rfl, rfl⟩ := hw.binding_unique hx hy
  rfl

/-! ## Records and names -/

theorem WellFormed.mem_bindings_iff (hw : t.WellFormed a) {id : SymbolId} {k : Option Kind} :
    (c, id, k) ∈ t.bindings a ↔ t.name? a id = some c ∧ (t.symbol? id).map (·.kind) = some k := by
  rw [mem_bindings hw.tree.nodup]
  simp only [name?, Option.bind_eq_some_iff, Option.map_eq_some_iff]
  constructor
  · rintro ⟨s, hs, hc, rfl⟩
    exact ⟨⟨s, hs, hc⟩, ⟨s, hs, rfl⟩⟩
  · rintro ⟨⟨s, hs, hc⟩, ⟨s', hs', rfl⟩⟩
    rw [hs] at hs'
    cases hs'
    exact ⟨s, hs, hc, rfl⟩

/-- Exactly the bound ids have records. -/
theorem WellFormed.symbol?_isSome_iff (hw : t.WellFormed a) {id : SymbolId} :
    (t.symbol? id).isSome ↔ ∃ c k, (c, id, k) ∈ t.bindings a := by
  constructor
  · intro hsome
    obtain ⟨s, hs⟩ := Option.isSome_iff_exists.mp hsome
    obtain ⟨e, he, -, hget⟩ := (symbol?_eq_some hw.tree.nodup).mp hs
    obtain ⟨m, hr, -⟩ := (hw.buckets e he).named _ (Bucket.name_mem_names hget)
    exact ⟨canonical m, s.kind, (mem_bindings hw.tree.nodup).mpr ⟨s, hs, hr, rfl⟩⟩
  · rintro ⟨c, k, hm⟩
    obtain ⟨s, hs, -, -⟩ := (mem_bindings hw.tree.nodup).mp hm
    simp [hs]

/-! ## Lookups and searches -/

/-- A bound id names an existing node, and a slot below that node's length. -/
theorem WellFormed.id_lt_of_mem (hw : t.WellFormed a) {id : SymbolId} {k : Option Kind}
    (hm : (c, id, k) ∈ t.bindings a) :
    id.node < t.tree.size ∧ ∃ e ∈ t.tree.entries, e.id = id.node ∧ id.slot < e.value.len := by
  obtain ⟨s, hsym, -, -⟩ := (mem_bindings hw.tree.nodup).mp hm
  obtain ⟨e, he, hid, hget⟩ := (symbol?_eq_some hw.tree.nodup).mp hsym
  have hrange : e.id ∈ List.range t.tree.size := hw.tree.ids.subset (List.mem_map_of_mem he)
  obtain ⟨hlt, -⟩ := Array.getElem?_eq_some_iff.mp hget
  exact ⟨hid ▸ List.mem_range.mp hrange, e, he, hid, hlt⟩

/-- A bound name is in the bucket of the node of its key. -/
theorem WellFormed.exists_entry_of_mem (hw : t.WellFormed a) {id : SymbolId} {k : Option Kind}
    (hm : (c, id, k) ∈ t.bindings a) :
    ∃ e ∈ t.tree.entries, e.key = t.hasher.hash c ∧
      ∃ s ∈ e.value.symbols, a.resolve? s.name = some c := by
  obtain ⟨s, hsym, hc, -⟩ := (mem_bindings hw.tree.nodup).mp hm
  obtain ⟨e, he, -, hget⟩ := (symbol?_eq_some hw.tree.nodup).mp hsym
  obtain ⟨m, hr, hkey⟩ := (hw.buckets e he).named _ (Bucket.name_mem_names hget)
  have hcm : canonical m = c := Option.some.inj (hr.symm.trans hc)
  exact ⟨e, he, hcm ▸ hkey.symm, s, Array.mem_of_getElem? hget, hc⟩

theorem WellFormed.search_ne_none_of_mem (hw : t.WellFormed a) {id : SymbolId} {k : Option Kind}
    (hm : (c, id, k) ∈ t.bindings a) : t.tree.search (t.hasher.hash c) ≠ none := by
  obtain ⟨e, he, hkey, -⟩ := hw.exists_entry_of_mem hm
  rw [Ne, SplayTree.search_eq_none_iff hw.tree.sorted]
  exact fun h => h e he hkey

/-- The bucket a search for a bound name's key lands on has a slot that reads as the name, in
any arena that keeps the names. -/
theorem WellFormed.find_ne_none_of_mem (hw : t.WellFormed a) (hk : a.Keeps a₁) {id : SymbolId}
    {k : Option Kind} (hm : (c, id, k) ∈ t.bindings a)
    (hs : t.tree.search (t.hasher.hash c) = some (node, tree)) :
    ((tree.value? node).getD .empty).find a₁ c ≠ none := by
  obtain ⟨e₀, he₀, hkey₀, s₀, hs₀, hr₀⟩ := hw.exists_entry_of_mem hm
  obtain ⟨e, he, rfl, hkey, hval⟩ := hw.search_value hs
  -- keys are distinct, so the search landed on the name's entry
  have hee : e = e₀ := List.inj_on_of_nodup_map hw.keys he he₀ (hkey.trans hkey₀.symm)
  subst hee
  rw [hval, Option.getD_some, Ne, Bucket.find_eq_none_iff]
  exact fun hnone => hnone s₀ hs₀ (hk _ _ hr₀)

/-- A slot found for a name in the bucket a search lands on holds a binding of the name. -/
theorem WellFormed.mem_of_find_some (hw : t.WellFormed a) (hk : a.Keeps a₁)
    (hs : t.tree.search (t.hasher.hash c) = some (node, tree))
    (hf : ((tree.value? node).getD .empty).find a₁ c = some slot) :
    ∃ k, (c, ⟨node, slot⟩, k) ∈ t.bindings a := by
  obtain ⟨e, he, rfl, -, hval⟩ := hw.search_value hs
  rw [hval, Option.getD_some] at hf
  obtain ⟨s, hget, hc⟩ := Bucket.find_eq_some hf
  have hsym : t.symbol? ⟨e.id, slot⟩ = some s :=
    (symbol?_eq_some hw.tree.nodup).mpr ⟨e, he, rfl, hget⟩
  obtain ⟨m, hr, -⟩ := (hw.buckets e he).named _ (Bucket.name_mem_names hget)
  -- the name reads alike in both arenas
  have hcm : canonical m = c := Option.some.inj ((hk _ _ hr).symm.trans hc)
  exact ⟨s.kind, (mem_bindings hw.tree.nodup).mpr ⟨s, hsym, hcm ▸ hr, rfl⟩⟩

section Lookups

variable [Allocator]

/-- Appending a new name to the bucket of the node its key found binds it to the next slot of
that node, which no binding has. -/
theorem WellFormed.push_bindings (hw : t.WellFormed a) {h : Arena.Handle} {b : Bucket}
    (hr : a.resolve? h = some (canonical n))
    (hs : t.tree.search (t.hasher.hash (canonical n)) = some (node, tree))
    (hp : ((tree.value? node).getD .empty).push (.ofHandle h) = .ok (slot, b)) :
    (∀ x ∈ t.bindings a, x.2.1 ≠ ⟨node, slot⟩) ∧
      (({ t with tree := tree.modify node fun _ => b, symbols := t.symbols + 1 } : Table).bindings
        a).Perm ((canonical n, ⟨node, slot⟩, none) :: t.bindings a) := by
  obtain ⟨e, he, rfl, -, hval⟩ := hw.search_value hs
  obtain ⟨hent, -⟩ := SplayTree.search_entries hs
  have hnd := hw.tree.nodup
  rw [hval, Option.getD_some] at hp
  obtain ⟨-, -, rfl, rfl⟩ := Bucket.push_eq_ok.mp hp
  constructor
  · rintro ⟨c', id', k'⟩ hx rfl
    obtain ⟨-, e', he', hid', hlt⟩ := hw.id_lt_of_mem hx
    have hee : e' = e := List.inj_on_of_nodup_map hnd he' he hid'
    subst hee
    exact Nat.lt_irrefl _ hlt
  · obtain ⟨l₁, l₂, hsplit⟩ := List.append_of_mem he
    rw [bindings_eq_flatMap, bindings_eq_flatMap]
    simp only
    rw [(SplayTree.modify_entries (hent ▸ hnd) e.id _).1, hent, hsplit,
      SplayTree.map_update_append_cons (hsplit ▸ hnd)]
    simp only [List.flatMap_append, List.flatMap_cons]
    rw [Bucket.withIds_push, List.filterMap_append]
    have hnew : [((⟨e.id, e.value.len⟩ : SymbolId), Symbol.ofHandle h)].filterMap (bindingOf a) =
        [(canonical n, ⟨e.id, e.value.len⟩, none)] := by
      simp [bindingOf, hr, Symbol.ofHandle]
    rw [hnew]
    -- the new binding moves to the front past the bindings after it
    have hmid := @List.perm_middle _ (canonical n, ⟨e.id, e.value.len⟩, none)
      (l₁.flatMap (fun e => (e.value.withIds e.id).filterMap (bindingOf a)) ++
        (e.value.withIds e.id).filterMap (bindingOf a))
      (l₂.flatMap fun e => (e.value.withIds e.id).filterMap (bindingOf a))
    simpa [List.append_assoc] using hmid

/-- Inserting a node for a key no node has binds the new name to slot 0 of a new number. -/
theorem WellFormed.insert_bindings (hw : t.WellFormed a) {h : Arena.Handle}
    (hr : a.resolve? h = some (canonical n))
    (hi : t.tree.insert (t.hasher.hash (canonical n)) (.single (.ofHandle h)) = .ok (node, tree)) :
    (∀ x ∈ t.bindings a, x.2.1 ≠ ⟨node, 0⟩) ∧
      (({ t with tree, symbols := t.symbols + 1 } : Table).bindings a).Perm
        ((canonical n, ⟨node, 0⟩, none) :: t.bindings a) := by
  obtain ⟨rfl, -, hent⟩ := SplayTree.insert_entries hw.tree.sorted hi
  constructor
  · rintro ⟨c', id', k'⟩ hx rfl
    exact Nat.lt_irrefl _ (hw.id_lt_of_mem hx).1
  · rw [bindings_eq_flatMap, bindings_eq_flatMap]
    simp only
    rw [hent]
    refine (List.Perm.flatMap_right _ (perm_insertRight _ _)).trans ?_
    simp [Bucket.withIds, Bucket.single, bindingOf, hr, Symbol.ofHandle]

/-- A lookup of a bound name returns the id it is bound to and changes no binding. -/
theorem WellFormed.get_of_mem (hw : t.WellFormed a) {held : Bool} {id id' : SymbolId}
    {k : Option Kind} (hm : (canonical n, id, k) ∈ t.bindings a)
    (h : t.get ⟨a, held⟩ n = .ok (id', t', a')) : id' = id ∧ t'.bindings a' = t.bindings a := by
  obtain ⟨-, trial, a₁, halloc, hit | push | ins⟩ := get_eq_ok h
  · obtain ⟨tree, hs, hf, rfl, rfl⟩ := hit
    obtain ⟨k', hm'⟩ := hw.mem_of_find_some (Arena.allocLower_keeps halloc) hs hf
    exact ⟨(hw.binding_unique hm' hm).1,
      bindings_congr hw (SplayTree.search_entries hs).1
        (keeps_giveBack halloc)⟩
  · obtain ⟨tree, b, hs, hf, -⟩ := push
    exact absurd hf (hw.find_ne_none_of_mem (Arena.allocLower_keeps halloc) hm hs)
  · obtain ⟨tree, hs, -⟩ := ins
    exact absurd hs (hw.search_ne_none_of_mem hm)

/-- A lookup of an unbound name binds it, with no kind, to an id that no binding has. -/
theorem WellFormed.get_of_not_mem (hw : t.WellFormed a) {held : Bool} {id : SymbolId}
    (hn : ∀ x ∈ t.bindings a, x.1 ≠ canonical n) (h : t.get ⟨a, held⟩ n = .ok (id, t', a')) :
    (∀ x ∈ t.bindings a, x.2.1 ≠ id) ∧
      (t'.bindings a').Perm ((canonical n, id, none) :: t.bindings a) := by
  obtain ⟨-, trial, a₁, halloc, hit | push | ins⟩ := get_eq_ok h
  · obtain ⟨tree, hs, hf, -⟩ := hit
    obtain ⟨k, hm⟩ := hw.mem_of_find_some (Arena.allocLower_keeps halloc) hs hf
    exact absurd rfl (hn _ hm)
  · obtain ⟨tree, b, hs, -, hp, rfl, rfl⟩ := push
    -- the old names read alike after the trial copy
    rw [← bindings_congr hw rfl (Arena.allocLower_keeps halloc)]
    exact (hw.keeps (Arena.allocLower_keeps halloc)).push_bindings
      (Arena.resolve?_allocLower halloc) hs hp
  · obtain ⟨tree, -, hi, hslot, rfl, rfl⟩ := ins
    rw [← bindings_congr hw rfl (Arena.allocLower_keeps halloc)]
    have hid : id = ⟨id.node, 0⟩ := by
      rw [← hslot]
    rw [hid]
    exact (hw.keeps (Arena.allocLower_keeps halloc)).insert_bindings
      (Arena.resolve?_allocLower halloc) hi

/-- A search answers with the id a name is bound to, if any, and changes no binding. -/
theorem WellFormed.find_bindings (hw : t.WellFormed a) {held : Bool} {r : Option SymbolId}
    (h : t.find ⟨a, held⟩ n = .ok (r, t', a')) :
    (∀ id, r = some id ↔ ∃ k, (canonical n, id, k) ∈ t.bindings a) ∧
      t'.bindings a' = t.bindings a := by
  obtain ⟨-, trial, a₁, halloc, rfl, ⟨node, tree, hs, rfl, rfl⟩ | ⟨hs, rfl, rfl⟩⟩ := find_eq_ok h
  · have hk := Arena.allocLower_keeps halloc
    refine ⟨fun id => ⟨?_, ?_⟩, bindings_congr hw (SplayTree.search_entries hs).1
      (keeps_giveBack halloc)⟩
    · intro hr
      obtain ⟨slot, hslot, rfl⟩ := Option.map_eq_some_iff.mp hr
      obtain ⟨b, hb, hf⟩ := Option.bind_eq_some_iff.mp hslot
      exact hw.mem_of_find_some hk hs (by rw [hb, Option.getD_some]; exact hf)
    · rintro ⟨k, hm⟩
      obtain ⟨e, -, rfl, -, hval⟩ := hw.search_value hs
      have hne := hw.find_ne_none_of_mem hk hm hs
      rw [hval, Option.getD_some] at hne
      obtain ⟨slot, hf⟩ := Option.ne_none_iff_exists'.mp hne
      have hfound := hw.mem_of_find_some hk hs (by rw [hval, Option.getD_some]; exact hf)
      obtain ⟨k', hm'⟩ := hfound
      rw [(hw.binding_unique hm hm').1, hval]
      simp [hf]
  · refine ⟨fun id => ⟨(fun h => nomatch h), fun ⟨k, hm⟩ => absurd hs (hw.search_ne_none_of_mem hm)⟩,
      bindings_congr hw rfl (keeps_giveBack halloc)⟩

end Lookups

/-- Setting the kind of an id of another node leaves a node's bindings as they were. -/
theorem map_setKind_bindings_of_ne {e : Entry Bucket} {id : SymbolId} (k : Kind)
    (hne : e.id ≠ id.node) :
    ((e.value.withIds e.id).filterMap (bindingOf a)).map
      (fun x => if x.2.1 = id then (x.1, id, some k) else x) =
      (e.value.withIds e.id).filterMap (bindingOf a) := by
  refine List.map_congr_left (fun y hy => ?_) |>.trans (List.map_id _)
  obtain ⟨p, hp, hb⟩ := List.mem_filterMap.mp hy
  simp only [bindingOf, Option.map_eq_some_iff] at hb
  obtain ⟨c, -, rfl⟩ := hb
  have hpid : p.1 ≠ id := fun hpe => hne (by rw [← (Bucket.mem_withIds.mp hp).1, hpe])
  simp [hpid]

/-- Setting the kind in slot `id.slot` of node `id.node` sets the kind of that binding alone,
and its name reads as before. -/
theorem bindings_withIds_setKind {e : Entry Bucket} {id : SymbolId} (k : Kind)
    (hid : e.id = id.node) :
    ((e.value.modify id.slot fun s => { s with kind := some k }).withIds e.id).filterMap
      (bindingOf a) = ((e.value.withIds e.id).filterMap (bindingOf a)).map
        (fun x => if x.2.1 = id then (x.1, id, some k) else x) := by
  rw [Bucket.withIds_modify, List.filterMap_map, List.map_filterMap]
  refine List.filterMap_congr fun p hp => ?_
  obtain ⟨hpn, -⟩ := Bucket.mem_withIds.mp hp
  obtain ⟨⟨pn, ps⟩, s'⟩ := p
  simp only at hpn
  subst hpn
  by_cases hps : ps = id.slot
  · subst hps
    have hpid : (⟨e.id, id.slot⟩ : SymbolId) = id := by rw [hid]
    simp [bindingOf, hpid, Function.comp_def]
  · have hpid : (⟨e.id, ps⟩ : SymbolId) ≠ id := fun h => hps (by rw [← h])
    simp [bindingOf, hps, hpid, Function.comp_def]

/-- Setting the kind of a bound id changes the kind of its binding alone. -/
theorem WellFormed.setKind_bindings (hw : t.WellFormed a) {id : SymbolId} {k : Kind}
    (h : t.setKind id k = some t') :
    t'.bindings a = (t.bindings a).map fun x => if x.2.1 = id then (x.1, id, some k) else x := by
  obtain ⟨hsome, rfl⟩ := setKind_eq_some.mp h
  obtain ⟨s, hs⟩ := Option.isSome_iff_exists.mp hsome
  have hnd := hw.tree.nodup
  obtain ⟨e, he, hid, -⟩ := (symbol?_eq_some hnd).mp hs
  obtain ⟨l₁, l₂, hsplit⟩ := List.append_of_mem he
  -- the nodes beside `e` have other numbers, so their bindings stay
  have hother : ∀ x ∈ l₁ ++ l₂, ((x.value.withIds x.id).filterMap (bindingOf a)).map
      (fun x => if x.2.1 = id then (x.1, id, some k) else x) =
      (x.value.withIds x.id).filterMap (bindingOf a) := fun x hx =>
    map_setKind_bindings_of_ne k (hid ▸ ne_of_nodup_map_append_cons (hsplit ▸ hnd) hx)
  rw [bindings_eq_flatMap, bindings_eq_flatMap]
  simp only
  rw [(SplayTree.modify_entries hnd _ _).1, hsplit, ← hid,
    SplayTree.map_update_append_cons (hsplit ▸ hnd)]
  simp only [List.flatMap_append, List.flatMap_cons, List.map_append, List.map_flatMap]
  rw [bindings_withIds_setKind k hid,
    List.flatMap_congr fun x hx => (hother x (List.mem_append_left _ hx)).symm,
    List.flatMap_congr fun x hx => (hother x (List.mem_append_right _ hx)).symm]

/-! ## Counts -/

/-- The keys of the bound names: each node's key once per symbol of its bucket. -/
theorem WellFormed.keys_bindings (hw : t.WellFormed a) :
    (t.bindings a).map (t.hasher.hash ·.1) =
      t.tree.entries.flatMap fun e => List.replicate e.value.len e.key := by
  rw [bindings_eq_flatMap, List.map_flatMap]
  refine List.flatMap_congr fun e he => List.eq_replicate_iff.mpr ⟨?_, ?_⟩
  · rw [List.length_map, List.filterMap_length_eq_length.mpr, Bucket.length_withIds]
    intro p hp
    obtain ⟨m, hb, -⟩ := hw.bindingOf_withIds he hp
    simp [hb]
  · intro key hkey
    obtain ⟨x, hx, rfl⟩ := List.mem_map.mp hkey
    obtain ⟨p, hp, hb⟩ := List.mem_filterMap.mp hx
    obtain ⟨m, hb', hkey'⟩ := hw.bindingOf_withIds he hp
    rw [hb'] at hb
    cases hb
    exact hkey'

theorem WellFormed.toFinset_keys (hw : t.WellFormed a) :
    ((t.bindings a).map (t.hasher.hash ·.1)).toFinset = (t.tree.entries.map (·.key)).toFinset := by
  ext key
  simp only [List.mem_toFinset, hw.keys_bindings, List.mem_flatMap, List.mem_replicate,
    List.mem_map]
  constructor
  · rintro ⟨e, he, -, rfl⟩
    exact ⟨e, he, rfl⟩
  · rintro ⟨e, he, rfl⟩
    exact ⟨e, he, Nat.pos_iff_ne_zero.mp (hw.buckets e he).nonempty, rfl⟩

/-- The nodes are the keys of the bound names. -/
theorem WellFormed.nodeCount_eq (hw : t.WellFormed a) :
    t.nodeCount = ((t.bindings a).map (t.hasher.hash ·.1)).toFinset.card := by
  rw [hw.toFinset_keys, List.toFinset_card_of_nodup hw.keys, List.length_map,
    hw.tree.length_entries]
  rfl

/-- A node's key is the key of as many bound names as its bucket holds. -/
theorem WellFormed.count_key (hw : t.WellFormed a) {e : Entry Bucket} (he : e ∈ t.tree.entries) :
    ((t.bindings a).map (t.hasher.hash ·.1)).count e.key = e.value.len := by
  obtain ⟨l₁, l₂, hsplit⟩ := List.append_of_mem he
  have hkeys := hsplit ▸ hw.keys
  -- the nodes beside `e` have other keys, so they count nothing
  have hzero : ∀ l : List (Entry Bucket), (∀ x ∈ l, x.key ≠ e.key) →
      (l.map (List.count e.key ∘ fun x => List.replicate x.value.len x.key)).sum = 0 := by
    intro l hl
    refine List.sum_eq_zero_iff_forall_eq_nat.mpr fun m hm => ?_
    obtain ⟨x, hx, rfl⟩ := List.mem_map.mp hm
    simp [List.count_replicate, hl x hx]
  have h₁ : ∀ x ∈ l₁, x.key ≠ e.key := fun x hx =>
    ne_of_nodup_map_append_cons hkeys (List.mem_append_left _ hx)
  have h₂ : ∀ x ∈ l₂, x.key ≠ e.key := fun x hx =>
    ne_of_nodup_map_append_cons hkeys (List.mem_append_right _ hx)
  rw [hw.keys_bindings, List.count_flatMap, hsplit, List.map_append, List.map_cons,
    List.sum_append, List.sum_cons, hzero l₁ h₁, hzero l₂ h₂]
  simp

/-- The colliding nodes are the keys shared by two bound names or more. -/
theorem WellFormed.collisionCount_eq (hw : t.WellFormed a) :
    t.collisionCount = (((t.bindings a).map (t.hasher.hash ·.1)).toFinset.filter
      fun key => 2 ≤ ((t.bindings a).map (t.hasher.hash ·.1)).count key).card := by
  rw [hw.toFinset_keys]
  have hfilter : ((t.tree.entries.map (·.key)).toFinset.filter
      fun key => 2 ≤ ((t.bindings a).map (t.hasher.hash ·.1)).count key) =
      ((t.tree.entries.map (·.key)).filter
        fun key => decide (2 ≤ ((t.bindings a).map (t.hasher.hash ·.1)).count key)).toFinset := by
    rw [List.toFinset_filter]
    simp
  rw [hfilter, List.toFinset_card_of_nodup (hw.keys.filter _), List.filter_map, List.length_map,
    collisionCount]
  congr 1
  refine List.filter_congr fun e he => ?_
  simp only [Function.comp_apply, hw.count_key he]
  exact decide_eq_decide.mpr Nat.lt_iff_add_one_le

/-! ## The finite map -/

/-- The laws by which a table whose names live in `a` acts as a finite map from canonical names
to records, its bindings. No name and no id is bound twice. A lookup of a bound name returns its
id and changes nothing; of an unbound name, binds it with no kind to an id no binding has. A
search answers by the bindings and changes nothing. A record exists exactly for a bound id, and
holds its name and kind; setting a kind changes that binding alone. Iteration lists the bound
ids with their kinds; the length counts the bindings, the nodes count the keys of the bound
names, the colliding nodes the keys shared by two names or more; a teardown unbinds all. -/
structure ActsAsFiniteMap [Allocator] (t : Table) (a : Arena) : Prop where
  names_nodup : ((t.bindings a).map (·.1)).Nodup
  ids_nodup : ((t.bindings a).map (·.2.1)).Nodup
  get_bound : ∀ (held : Bool) (n : String) (id : SymbolId) (k : Option Kind) id' t' a',
    (canonical n, id, k) ∈ t.bindings a → t.get ⟨a, held⟩ n = .ok (id', t', a') →
      id' = id ∧ t'.bindings a' = t.bindings a
  get_unbound : ∀ (held : Bool) (n : String) id t' a', (∀ x ∈ t.bindings a, x.1 ≠ canonical n) →
    t.get ⟨a, held⟩ n = .ok (id, t', a') →
      (∀ x ∈ t.bindings a, x.2.1 ≠ id) ∧
        (t'.bindings a').Perm ((canonical n, id, none) :: t.bindings a)
  find : ∀ (held : Bool) (n : String) r t' a', t.find ⟨a, held⟩ n = .ok (r, t', a') →
    (∀ id, r = some id ↔ ∃ k, (canonical n, id, k) ∈ t.bindings a) ∧
      t'.bindings a' = t.bindings a
  record : ∀ c id k, (c, id, k) ∈ t.bindings a ↔
    t.name? a id = some c ∧ (t.symbol? id).map (·.kind) = some k
  symbol : ∀ id, (t.symbol? id).isSome ↔ ∃ c k, (c, id, k) ∈ t.bindings a
  setKind_isSome : ∀ id k, (t.setKind id k).isSome ↔ ∃ c k₀, (c, id, k₀) ∈ t.bindings a
  setKind : ∀ id k t', t.setKind id k = some t' →
    t'.bindings a = (t.bindings a).map fun x => if x.2.1 = id then (x.1, id, some k) else x
  iter : t.iter.map (fun p => (p.1, p.2.kind)) = (t.bindings a).map (·.2)
  len : t.len = (t.bindings a).length
  nodeCount : t.nodeCount = ((t.bindings a).map (t.hasher.hash ·.1)).toFinset.card
  collisionCount : t.collisionCount = (((t.bindings a).map (t.hasher.hash ·.1)).toFinset.filter
    fun key => 2 ≤ ((t.bindings a).map (t.hasher.hash ·.1)).count key).card
  clear : t.clear.2.bindings a = []

/-- In every state a table reaches, whatever its hasher and its arena's sizing, it acts as a
finite map from canonical names to records. -/
theorem reachable_actsAsFiniteMap [Allocator] (h : Reachable t a) : t.ActsAsFiniteMap a := by
  have hw := h.wellFormed
  refine ⟨hw.nodup_names, hw.nodup_ids, fun _ _ _ _ _ _ _ hm hg => hw.get_of_mem hm hg,
    fun _ _ _ _ _ hn hg => hw.get_of_not_mem hn hg, fun _ _ _ _ _ hf => hw.find_bindings hf,
    fun _ _ _ => hw.mem_bindings_iff, fun _ => hw.symbol?_isSome_iff, fun id k => ?_,
    fun _ _ _ hk => hw.setKind_bindings hk, hw.map_snd_bindings.symm, hw.length_bindings.symm,
    hw.nodeCount_eq, hw.collisionCount_eq, rfl⟩
  -- setting a kind succeeds exactly on an id with a record
  rw [← hw.symbol?_isSome_iff]
  simp [setKind]

/-- A name looked up twice in different case: the second lookup finds it and gives its trial
copy back. -/
theorem reachable_actsAsFiniteMap_case :
    let t : Table :=
      ⟨⟨.node .leaf ⟨0, Hasher.polynomial.hash "foo", ⟨#[⟨none, ⟨0, 0, 3⟩⟩], 1⟩⟩ .leaf, 1⟩,
        .polynomial, 1⟩
    let a : Arena := ⟨#[⟨"foo".toUTF8, 20000⟩], 100, ⟨20000, 100⟩, none, 1⟩
    letI := Allocator.granting
    Reachable t a ∧ t.ActsAsFiniteMap a := by
  let _ : Allocator := Allocator.granting
  intro t a
  have h₁ : (Table.empty .polynomial).get ⟨Arena.empty {}, false⟩ "Foo" =
      .ok (⟨0, 0⟩, t, ⟨#[⟨"foo".toUTF8, 20000⟩], 100, ⟨20000, 100⟩, some ⟨0, 0, 3⟩, 1⟩) := by
    cbv
  have h₂ : t.get ⟨⟨#[⟨"foo".toUTF8, 20000⟩], 100, ⟨20000, 100⟩, some ⟨0, 0, 3⟩, 1⟩, false⟩
      "fOO" = .ok (⟨0, 0⟩, t, a) := by
    cbv
  have hr : Reachable t a := .get (.get (.empty _ _) h₁) h₂
  exact ⟨hr, reachable_actsAsFiniteMap hr⟩

end Table

end Lexicon
