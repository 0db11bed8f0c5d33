import Mathlib
import Lexicon.Proofs.Splay.Links
import Lexicon.Proofs.Table.Steps

/-!
# The representation invariant of symbol tables

A table is well formed in the arena its names live in when its tree is well formed with distinct
keys, every bucket is well formed for its node's key, and its counter of symbols is the sum of
the bucket lengths. A bucket is well formed when it is not empty, its room is the least power of
two that holds its symbols, and its names read as distinct canonical names that the table's
hasher sends to the node's key.

Every operation keeps the invariant, and so does any change of the shared arena that keeps every
name readable as it was. A call that fails may still change the table and the arena: a lookup
that fails after its trial copy has splayed its key's node, and a failed copy may keep a chunk it
opened. What it leaves is a state that successful calls reach too (`Table.FailureKeeps.reachable`),
so the invariant holds after failed calls as well.

* `Bucket.WellFormed`, `Table.WellFormed`: the invariant of a bucket and of a table.
* `Table.WellFormed.get`, `find`, `setKind`, `clear`, `keeps`: each operation keeps it.
* `Table.Reachable`: the states built from an empty table by successful operations.
* `Table.reachable_wellFormed`: the invariant holds in every reachable state; so node keys
  increase strictly, no name is in two buckets, and a teardown reports the node count and the
  length.
-/

namespace Lexicon

/-- In a list whose images are distinct, the elements beside `e` have images other than `e`'s. -/
theorem ne_of_nodup_map_append_cons {β γ : Type} {f : β → γ} {l₁ l₂ : List β} {e x : β}
    (hnd : ((l₁ ++ e :: l₂).map f).Nodup) (hx : x ∈ l₁ ++ l₂) : f x ≠ f e := by
  rw [List.map_append, List.map_cons, List.nodup_middle, List.nodup_cons, ← List.map_append]
    at hnd
  exact fun hxe => hnd.1 (hxe ▸ List.mem_map_of_mem hx)

namespace SplayTree

open Splay

variable {α : Type} {t t' : SplayTree α} {k : Key} {id : Nat}

/-- A search that hits returns the number of an entry with the key searched for. -/
theorem search_mem (h : t.search k = some (id, t')) : ∃ e ∈ t.entries, e.id = id ∧ e.key = k := by
  obtain ⟨e, hroot, hid, hkey⟩ := search_root t k h
  have he : e ∈ t'.entries := Tree.root?_mem hroot
  rw [(search_entries h).1] at he
  exact ⟨e, he, hid, hkey⟩

/-- In a tree with distinct numbers, the value under an entry's number is the entry's. -/
theorem value?_of_mem (hnd : (t.entries.map (·.id)).Nodup) {e : Entry α} (he : e ∈ t.entries) :
    t.value? e.id = some e.value := by
  simp [value?, (Tree.find?_eq_some_iff hnd).mpr ⟨he, rfl⟩]

theorem Entry.update_self (f : α → α) (e : Entry α) :
    e.update e.id f = { e with value := f e.value } :=
  if_pos rfl

/-- An entry after changing the value of node `i` is an old entry, or the entry of number `i`
with its value changed. -/
theorem mem_map_update {i : Nat} {f : α → α} {l : List (Entry α)} {x : Entry α}
    (hx : x ∈ l.map (Entry.update i f)) :
    x ∈ l ∨ ∃ y ∈ l, y.id = i ∧ x = { y with value := f y.value } := by
  obtain ⟨y, hy, rfl⟩ := List.mem_map.mp hx
  by_cases hi : y.id = i
  · exact .inr ⟨y, hy, hi, by rw [← hi, Entry.update_self]⟩
  · exact .inl (by rw [Entry.update_of_ne hi]; exact hy)

/-- In a list with distinct numbers, changing the value of node `e.id` changes `e` alone. -/
theorem map_update_append_cons {l₁ l₂ : List (Entry α)} {e : Entry α}
    (hnd : ((l₁ ++ e :: l₂).map (·.id)).Nodup) (f : α → α) :
    (l₁ ++ e :: l₂).map (Entry.update e.id f) = l₁ ++ { e with value := f e.value } :: l₂ := by
  have h₁ : l₁.map (Entry.update e.id f) = l₁ :=
    map_update_of_forall_ne fun x hx => ne_of_nodup_map_append_cons hnd (List.mem_append_left _ hx)
  have h₂ : l₂.map (Entry.update e.id f) = l₂ :=
    map_update_of_forall_ne fun x hx => ne_of_nodup_map_append_cons hnd (List.mem_append_right _ hx)
  rw [List.map_append, List.map_cons, h₁, h₂, Entry.update_self]

/-- Changing the value of the entry `e` of a list with distinct numbers changes a sum over the
values by the change at `e`. -/
theorem sum_map_update (g : α → Nat) (f : α → α) {l : List (Entry α)}
    (hnd : (l.map (·.id)).Nodup) {e : Entry α} (he : e ∈ l) :
    ((l.map (Entry.update e.id f)).map (g ·.value)).sum + g e.value =
      (l.map (g ·.value)).sum + g (f e.value) := by
  obtain ⟨l₁, l₂, rfl⟩ := List.append_of_mem he
  rw [map_update_append_cons hnd]
  simp only [List.map_append, List.map_cons, List.sum_append, List.sum_cons]
  omega

end SplayTree

namespace Bucket

variable {b b' : Bucket} {a a' : Arena} {H : Hasher} {key : Key}

/-- The handles of the names of a bucket's symbols, slot by slot. -/
def names (b : Bucket) : List Arena.Handle := b.symbols.toList.map (·.name)

@[simp] theorem length_names (b : Bucket) : b.names.length = b.len := by
  simp [names, len]

@[simp] theorem names_single (s : Symbol) : (single s).names = [s.name] := rfl

theorem names_modify {f : Symbol → Symbol} (hf : ∀ s, (f s).name = s.name) (i : Nat) :
    (b.modify i f).names = b.names := by
  apply List.ext_getElem (by simp [names, modify])
  intro j h₁ h₂
  simp only [names, modify, Array.toList_modify, List.getElem_map, List.getElem_modify]
  split <;> simp [hf]

/-- A push succeeds exactly when the slot fits a 32-bit field and, for a full bucket, the
allocator grants the doubled room. -/
theorem push_eq_ok [Allocator] {s : Symbol} {slot : Nat} :
    b.push s = .ok (slot, b') ↔ b.len ≤ fieldMax ∧
      (b.symbols.size = b.capacity → Allocator.grantsBucket (b.capacity * growthFactor) = true) ∧
      slot = b.len ∧ b' = ⟨b.symbols.push s,
        if b.symbols.size = b.capacity then b.capacity * growthFactor else b.capacity⟩ := by
  rw [push_eq]
  by_cases hfit : b.symbols.size ≤ fieldMax
  · rw [if_pos hfit]
    by_cases hrefused :
        b.symbols.size = b.capacity ∧ Allocator.grantsBucket (b.capacity * growthFactor) = false
    · rw [if_pos hrefused]
      simp only [reduceCtorEq, false_iff]
      rintro ⟨-, hg, -⟩
      simp [hg hrefused.1] at hrefused
    · rw [if_neg hrefused]
      simp only [Except.ok.injEq, Prod.mk.injEq, len]
      constructor
      · rintro ⟨rfl, rfl⟩
        exact ⟨hfit, fun hfull => by simpa [hfull] using hrefused, rfl, rfl⟩
      · rintro ⟨-, -, rfl, rfl⟩
        exact ⟨rfl, rfl⟩
  · rw [if_neg hfit]
    simp only [reduceCtorEq, false_iff]
    exact fun h => hfit h.1

/-- Doubling a full room, or keeping a room that is not full, keeps it the least power of two
that holds the symbols after one more is added. -/
theorem isLeast_room_push {n c : Nat} (h : IsLeast {m | (∃ i, m = 2 ^ i) ∧ n ≤ m} c) :
    IsLeast {m | (∃ i, m = 2 ^ i) ∧ n + 1 ≤ m} (if n = c then c * growthFactor else c) := by
  obtain ⟨⟨⟨i, rfl⟩, hle⟩, hleast⟩ := h
  split
  · next heq =>
    have hpos := Nat.one_le_two_pow (n := i)
    refine ⟨⟨⟨i + 1, by rw [growthFactor, Nat.pow_succ]⟩, by rw [growthFactor]; omega⟩, ?_⟩
    rintro m ⟨⟨j, rfl⟩, hm⟩
    -- a power of two above `2 ^ i` is at least `2 ^ (i + 1)`
    have hij : i < j := (Nat.pow_lt_pow_iff_right (by decide : 1 < 2)).mp (by omega)
    calc 2 ^ i * growthFactor = 2 ^ (i + 1) := by rw [growthFactor, Nat.pow_succ]
      _ ≤ 2 ^ j := Nat.pow_le_pow_right (by decide) hij
  · next hne =>
    exact ⟨⟨⟨i, rfl⟩, by omega⟩, fun m ⟨hp, hm⟩ => hleast ⟨hp, by omega⟩⟩

/-- The invariant of a bucket of key `key` whose names live in `a`: it is not empty, its room is
the least power of two that holds its symbols, and its names read as distinct canonical names
that `H` sends to `key`. -/
structure WellFormed (b : Bucket) (a : Arena) (H : Hasher) (key : Key) : Prop where
  nonempty : 0 < b.len
  room : IsLeast {m | (∃ i, m = 2 ^ i) ∧ b.len ≤ m} b.capacity
  named : ∀ h ∈ b.names, ∃ n, a.resolve? h = some (canonical n) ∧ H.hash (canonical n) = key
  distinct : (b.names.map a.resolve?).Nodup

theorem WellFormed.keeps (hb : b.WellFormed a H key) (hk : a.Keeps a') :
    b.WellFormed a' H key := by
  refine ⟨hb.nonempty, hb.room, fun h hh => ?_, ?_⟩
  · obtain ⟨n, hr, hkey⟩ := hb.named h hh
    exact ⟨n, hk h _ hr, hkey⟩
  · -- every name reads in `a'` as it read in `a`
    have hsame : b.names.map a'.resolve? = b.names.map a.resolve? :=
      List.map_congr_left fun h hh => by
        obtain ⟨n, hr, -⟩ := hb.named h hh
        rw [hr, hk h _ hr]
    exact hsame ▸ hb.distinct

/-- A new bucket for one name that reads as a canonical name of the key. -/
theorem wellFormed_single {h : Arena.Handle} {n : String}
    (hr : a.resolve? h = some (canonical n)) (hkey : H.hash (canonical n) = key) :
    (single (.ofHandle h)).WellFormed a H key := by
  refine ⟨Nat.one_pos, ⟨⟨⟨0, rfl⟩, Nat.le_refl _⟩, ?_⟩, ?_, ?_⟩
  · rintro m ⟨⟨j, rfl⟩, -⟩
    exact Nat.one_le_two_pow
  · intro h' hh
    rw [names_single, List.mem_singleton] at hh
    exact ⟨n, hh ▸ hr, hkey⟩
  · simp

/-- Appending a name that reads as a canonical name of the key and that the bucket lacks. -/
theorem WellFormed.push [Allocator] {h : Arena.Handle} {n : String} {slot : Nat}
    (hb : b.WellFormed a H key) (hr : a.resolve? h = some (canonical n))
    (hkey : H.hash (canonical n) = key) (hf : b.find a (canonical n) = none)
    (hp : b.push (.ofHandle h) = .ok (slot, b')) : b'.WellFormed a H key := by
  obtain ⟨-, -, -, rfl⟩ := push_eq_ok.mp hp
  have hnames : ∀ c, names ⟨b.symbols.push (.ofHandle h), c⟩ = b.names ++ [h] := by
    simp [names, Symbol.ofHandle]
  refine ⟨by simp [len], ?_, fun h' hh => ?_, ?_⟩
  · simp only [len, Array.size_push]
    exact isLeast_room_push hb.room
  · rw [hnames, List.mem_append, List.mem_singleton] at hh
    rcases hh with hh | rfl
    · exact hb.named h' hh
    · exact ⟨n, hr, hkey⟩
  · rw [hnames, List.map_append, List.nodup_append]
    refine ⟨hb.distinct, by simp, ?_⟩
    -- the scan missed, so no old name reads as the new one
    simp only [List.map_cons, List.map_nil, List.mem_singleton, List.mem_map]
    rintro _ ⟨h', hh, rfl⟩ _ rfl heq
    obtain ⟨s, hs, rfl⟩ := List.mem_map.mp hh
    exact find_eq_none_iff.mp hf s (Array.mem_toList_iff.mp hs) (heq.trans hr)

/-- Setting the kind of a slot keeps every name. -/
theorem WellFormed.setKind (hb : b.WellFormed a H key) (i : Nat) (k : Kind) :
    (b.modify i fun s => { s with kind := some k }).WellFormed a H key := by
  have hnames := names_modify (b := b) (f := fun s => { s with kind := some k }) (fun _ => rfl) i
  have hlen : (b.modify i fun s => { s with kind := some k }).len = b.len := by
    simp [len, modify]
  exact ⟨hlen ▸ hb.nonempty, hlen ▸ hb.room, hnames ▸ hb.named, hnames ▸ hb.distinct⟩

end Bucket

namespace Table

open Splay

variable {t t' : Table} {a a' : Arena} {sh : Shared} {n : String}

/-- The representation invariant of a table whose names live in `a`: the tree is well formed
with distinct keys, each bucket is well formed for its node's key, and the counter of symbols is
the sum of the bucket lengths. -/
structure WellFormed (t : Table) (a : Arena) : Prop where
  tree : t.tree.WellFormed
  keys : (t.tree.entries.map (·.key)).Nodup
  buckets : ∀ e ∈ t.tree.entries, e.value.WellFormed a t.hasher e.key
  count : t.symbols = (t.tree.entries.map (·.value.len)).sum

theorem WellFormed.empty (H : Hasher) (a : Arena) : (Table.empty H).WellFormed a :=
  ⟨.empty, .nil, (fun _ h => nomatch h), rfl⟩

theorem WellFormed.clear (t : Table) (a : Arena) : t.clear.2.WellFormed a :=
  ⟨.empty, .nil, (fun _ h => nomatch h), rfl⟩

theorem WellFormed.keeps (hw : t.WellFormed a) (hk : a.Keeps a') : t.WellFormed a' :=
  ⟨hw.tree, hw.keys, fun e he => (hw.buckets e he).keeps hk, hw.count⟩

/-- A search that hits splays a node up and keeps the invariant. -/
theorem WellFormed.search {k : Key} {node : Nat} {tree : SplayTree Bucket} (hw : t.WellFormed a)
    (hs : t.tree.search k = some (node, tree)) : ({ t with tree } : Table).WellFormed a := by
  obtain ⟨he, -⟩ := SplayTree.search_entries hs
  exact ⟨hw.tree.search hs, he ▸ hw.keys, he ▸ hw.buckets, he ▸ hw.count⟩

/-- A search that hits lands on an entry with the key, whose bucket is the value of its node. -/
theorem WellFormed.search_value {k : Key} {node : Nat} {tree : SplayTree Bucket}
    (hw : t.WellFormed a) (hs : t.tree.search k = some (node, tree)) :
    ∃ e ∈ t.tree.entries, e.id = node ∧ e.key = k ∧ tree.value? node = some e.value := by
  obtain ⟨e, he, rfl, hkey⟩ := SplayTree.search_mem hs
  obtain ⟨hent, -⟩ := SplayTree.search_entries hs
  refine ⟨e, he, rfl, hkey, SplayTree.value?_of_mem (hw.search hs).tree.nodup ?_⟩
  simpa [hent] using he

section Lookups

variable [Allocator]

/-- Appending a new name to the bucket of the node its key found. -/
theorem WellFormed.push {h : Arena.Handle} {node slot : Nat} {tree : SplayTree Bucket}
    {b : Bucket} (hw : t.WellFormed a) (hr : a.resolve? h = some (canonical n))
    (hs : t.tree.search (t.hasher.hash (canonical n)) = some (node, tree))
    (hf : ((tree.value? node).getD .empty).find a (canonical n) = none)
    (hp : ((tree.value? node).getD .empty).push (.ofHandle h) = .ok (slot, b)) :
    ({ t with tree := tree.modify node fun _ => b, symbols := t.symbols + 1 } : Table).WellFormed
      a := by
  obtain ⟨e, he, rfl, hkey, hval⟩ := hw.search_value hs
  rw [hval, Option.getD_some] at hf hp
  have hw' := hw.search hs
  have hnd := hw'.tree.nodup
  rw [← (SplayTree.search_entries hs).1] at he
  have hb : b.WellFormed a t.hasher e.key :=
    (hw'.buckets e he).push hr hkey.symm hf hp
  obtain ⟨hmod, -⟩ := SplayTree.modify_entries hnd e.id fun _ => b
  refine ⟨hw'.tree.modify _ _, ?_, fun x hx => ?_, ?_⟩
  · simpa [hmod, List.map_map, Function.comp_def] using hw'.keys
  · simp only at hx ⊢
    rw [hmod] at hx
    rcases SplayTree.mem_map_update hx with hx | ⟨y, hy, hid, rfl⟩
    · exact hw'.buckets x hx
    · -- only `e` has the number of `e`
      have := List.inj_on_of_nodup_map hnd hy he hid
      subst this
      exact hb
  · simp only
    rw [hmod, hw'.count]
    have := SplayTree.sum_map_update (·.len) (fun _ => b) hnd he
    obtain ⟨-, -, -, rfl⟩ := Bucket.push_eq_ok.mp hp
    simp only [Bucket.len, Array.size_push] at this ⊢
    omega

/-- Inserting a node for a key that no node has, with a bucket of one new name. -/
theorem WellFormed.insert {h : Arena.Handle} {node : Nat} {tree : SplayTree Bucket}
    (hw : t.WellFormed a) (hr : a.resolve? h = some (canonical n))
    (hs : t.tree.search (t.hasher.hash (canonical n)) = none)
    (hi : t.tree.insert (t.hasher.hash (canonical n)) (.single (.ofHandle h)) = .ok (node, tree)) :
    ({ t with tree, symbols := t.symbols + 1 } : Table).WellFormed a := by
  have habsent := (SplayTree.search_eq_none_iff hw.tree.sorted _).mp hs
  obtain ⟨-, -, hent⟩ := SplayTree.insert_entries hw.tree.sorted hi
  have hperm := perm_insertRight t.tree.entries ⟨node, t.hasher.hash (canonical n), .single (.ofHandle h)⟩
  rw [← hent] at hperm
  refine ⟨hw.tree.insert hi, ?_, fun x hx => ?_, ?_⟩
  · rw [(hperm.map (·.key)).nodup_iff, List.map_cons, List.nodup_cons]
    exact ⟨fun hmem => by
      obtain ⟨x, hx, hkey⟩ := List.mem_map.mp hmem
      exact habsent x hx hkey, hw.keys⟩
  · rcases List.mem_cons.mp (hperm.mem_iff.mp hx) with rfl | hx
    · exact Bucket.wellFormed_single hr rfl
    · exact hw.buckets x hx
  · simp only
    rw [(hperm.map (·.value.len)).sum_nat, List.map_cons, List.sum_cons, hw.count]
    simp [Bucket.single, Bucket.len]
    omega

/-- A successful lookup keeps every name that the shared arena could read. -/
theorem get_keeps {id : SymbolId} (h : t.get sh n = .ok (id, t', a')) : sh.arena.Keeps a' := by
  obtain ⟨-, trial, a₁, halloc, ⟨-, -, -, -, rfl⟩ | ⟨-, -, -, -, -, -, rfl⟩ |
    ⟨-, -, -, -, -, rfl⟩⟩ := get_eq_ok h
  · exact keeps_giveBack halloc
  · exact Arena.allocLower_keeps halloc
  · exact Arena.allocLower_keeps halloc

/-- A successful search keeps every name that the shared arena could read. -/
theorem find_keeps {r : Option SymbolId} (h : t.find sh n = .ok (r, t', a')) :
    sh.arena.Keeps a' := by
  obtain ⟨-, trial, a₁, halloc, rfl, -⟩ := find_eq_ok h
  exact keeps_giveBack halloc

theorem WellFormed.get {id : SymbolId} (hw : t.WellFormed sh.arena)
    (h : t.get sh n = .ok (id, t', a')) : t'.WellFormed a' := by
  obtain ⟨-, trial, a₁, halloc, hit | push | ins⟩ := get_eq_ok h
  · obtain ⟨tree, hs, -, rfl, rfl⟩ := hit
    exact (hw.search hs).keeps (keeps_giveBack halloc)
  · obtain ⟨tree, b, hs, hf, hp, rfl, rfl⟩ := push
    exact (hw.keeps (Arena.allocLower_keeps halloc)).push (Arena.resolve?_allocLower halloc) hs hf hp
  · obtain ⟨tree, hs, hi, -, rfl, rfl⟩ := ins
    exact (hw.keeps (Arena.allocLower_keeps halloc)).insert (Arena.resolve?_allocLower halloc) hs hi

theorem WellFormed.find {r : Option SymbolId} (hw : t.WellFormed sh.arena)
    (h : t.find sh n = .ok (r, t', a')) : t'.WellFormed a' := by
  obtain ⟨-, trial, a₁, halloc, rfl, ⟨node, tree, hs, rfl, -⟩ | ⟨-, rfl, -⟩⟩ := find_eq_ok h
  · exact (hw.search hs).keeps (keeps_giveBack halloc)
  · exact hw.keeps (keeps_giveBack halloc)

end Lookups

theorem setKind_eq_some {id : SymbolId} {k : Kind} :
    t.setKind id k = some t' ↔ (t.symbol? id).isSome ∧
      t' = { t with tree := t.tree.modify id.node (·.modify id.slot fun s => { s with kind := some k }) } := by
  unfold setKind
  cases t.symbol? id <;> simp [eq_comm]

theorem WellFormed.setKind {id : SymbolId} {k : Kind} (hw : t.WellFormed a)
    (h : t.setKind id k = some t') : t'.WellFormed a := by
  obtain ⟨-, rfl⟩ := setKind_eq_some.mp h
  obtain ⟨hmod, -⟩ := SplayTree.modify_entries hw.tree.nodup id.node
    (·.modify id.slot fun s => { s with kind := some k })
  refine ⟨hw.tree.modify _ _, ?_, fun x hx => ?_, ?_⟩
  · simpa [hmod, List.map_map, Function.comp_def] using hw.keys
  · simp only at hx ⊢
    rw [hmod] at hx
    rcases SplayTree.mem_map_update hx with hx | ⟨y, hy, -, rfl⟩
    · exact hw.buckets x hx
    · exact (hw.buckets y hy).setKind id.slot k
  · -- no bucket changes its length
    simp only
    have hlen : ∀ x : Entry Bucket, (x.update id.node
        (·.modify id.slot fun s => { s with kind := some k })).value.len = x.value.len := by
      intro x
      by_cases hx : x.id = id.node <;> simp [Entry.update, hx, Bucket.modify, Bucket.len]
    rw [hmod, hw.count, List.map_map]
    exact congrArg List.sum (List.map_congr_left fun x _ => (hlen x).symm)

section Reaching

variable [Allocator]

/-- The states of a table and of the arena its names live in, built from an empty table by
successful lookups, searches, settings of kinds and teardowns. Between two calls the arena may
change in any way that keeps every readable name as it reads, as the lookups of other tables
sharing it do (`get_keeps`, `find_keeps`). -/
inductive Reachable : Table → Arena → Prop
  | empty (H : Hasher) (a : Arena) : Reachable (Table.empty H) a
  | get {t t' : Table} {sh : Shared} {n : String} {id : SymbolId} {a' : Arena} :
      Reachable t sh.arena → t.get sh n = .ok (id, t', a') → Reachable t' a'
  | find {t t' : Table} {sh : Shared} {n : String} {r : Option SymbolId} {a' : Arena} :
      Reachable t sh.arena → t.find sh n = .ok (r, t', a') → Reachable t' a'
  | setKind {t t' : Table} {a : Arena} {id : SymbolId} {k : Kind} :
      Reachable t a → t.setKind id k = some t' → Reachable t' a
  | clear {t : Table} {a : Arena} : Reachable t a → Reachable t.clear.2 a
  | share {t : Table} {a a' : Arena} : Reachable t a → a.Keeps a' → Reachable t a'

theorem Reachable.wellFormed (h : Reachable t a) : t.WellFormed a := by
  induction h with
  | empty H a => exact .empty H a
  | get _ hg ih => exact ih.get hg
  | find _ hf ih => exact ih.find hf
  | setKind _ hk ih => exact ih.setKind hk
  | clear _ _ => exact .clear _ _
  | share _ hk ih => exact ih.keeps hk

end Reaching

/-- Sorted keys that are distinct increase strictly. -/
theorem WellFormed.keys_lt (hw : t.WellFormed a) : t.tree.entries.Pairwise (·.key < ·.key) := by
  have hne : t.tree.entries.Pairwise (·.key ≠ ·.key) := List.pairwise_map.mp hw.keys
  exact (hw.tree.sorted.and hne).imp fun ⟨hle, hne⟩ => UInt64.lt_of_le_of_ne hle hne

/-- Two names that read alike are in one bucket: both hash to its key, and keys are distinct. -/
theorem WellFormed.bucket_unique (hw : t.WellFormed a) {e e' : Entry Bucket}
    (he : e ∈ t.tree.entries) (he' : e' ∈ t.tree.entries) {h h' : Arena.Handle}
    (hh : h ∈ e.value.names) (hh' : h' ∈ e'.value.names) (hr : a.resolve? h = a.resolve? h') :
    e = e' := by
  obtain ⟨m, hm, hkey⟩ := (hw.buckets e he).named h hh
  obtain ⟨m', hm', hkey'⟩ := (hw.buckets e' he').named h' hh'
  have hc : canonical m = canonical m' := Option.some.inj (hm.symm.trans (hr.trans hm'))
  exact List.inj_on_of_nodup_map hw.keys he he' (hkey.symm.trans (hc ▸ hkey'))

/-- A teardown releases every node and every symbol of the buckets. -/
theorem WellFormed.clear_fst (hw : t.WellFormed a) : t.clear.1 = ⟨t.nodeCount, t.len⟩ := by
  have hperm := Tree.postOrder_perm_toList t.tree.root
  have hlen : t.tree.root.postOrder.length = t.tree.size := by
    rw [hperm.length_eq, ← hw.tree.length_entries]
    rfl
  have hsum : ((t.tree.root.postOrder.map fun e => (e.key, e.value)).map fun p => p.2.len).foldr
      (· + ·) 0 = t.symbols := by
    rw [hw.count, ← List.sum_eq_foldr, List.map_map]
    exact (hperm.map _).sum_nat
  simp only [Table.clear, SplayTree.drain, List.length_map, hlen, hsum]
  rfl

/-- In every state a table reaches, the representation invariant holds. So node keys increase
strictly in order, a name read alike from two buckets' symbols is in one bucket, and a teardown
reports the node count and the number of symbols taken before it. The reachable states include
what failed calls leave, which successful calls reach too (`Table.FailureKeeps.reachable`). -/
theorem reachable_wellFormed [Allocator] (h : Reachable t a) :
    t.WellFormed a ∧ t.tree.entries.Pairwise (·.key < ·.key) ∧
      (∀ e ∈ t.tree.entries, ∀ e' ∈ t.tree.entries, ∀ x ∈ e.value.names, ∀ x' ∈ e'.value.names,
        a.resolve? x = a.resolve? x' → e = e') ∧
      t.clear.1 = ⟨t.nodeCount, t.len⟩ := by
  have hw := h.wellFormed
  exact ⟨hw, hw.keys_lt, fun e he e' he' x hx x' hx' hr => hw.bucket_unique he he' hx hx' hr,
    hw.clear_fst⟩

/-- Under a constant hasher the names `a` and `B` share one node: the second lookup appends to
its bucket, which doubles its room to 2. -/
theorem reachable_wellFormed_collision :
    let t : Table :=
      ⟨⟨.node .leaf ⟨0, 7, ⟨#[⟨none, ⟨0, 0, 1⟩⟩, ⟨none, ⟨0, 1, 1⟩⟩], 2⟩⟩ .leaf, 1⟩, .constant 7, 2⟩
    let a : Arena := ⟨#[⟨"ab".toUTF8, 20000⟩], 100, ⟨20000, 100⟩, some ⟨0, 1, 1⟩, 2⟩
    letI := Allocator.granting
    Reachable t a ∧ t.WellFormed a ∧ t.tree.entries.Pairwise (·.key < ·.key) ∧
      (∀ e ∈ t.tree.entries, ∀ e' ∈ t.tree.entries, ∀ x ∈ e.value.names, ∀ x' ∈ e'.value.names,
        a.resolve? x = a.resolve? x' → e = e') ∧
      t.clear.1 = ⟨t.nodeCount, t.len⟩ := by
  let _ : Allocator := Allocator.granting
  intro t a
  have h₁ : (Table.empty (.constant 7)).get ⟨Arena.empty {}, false⟩ "a" =
      .ok (⟨0, 0⟩, ⟨⟨.node .leaf ⟨0, 7, ⟨#[⟨none, ⟨0, 0, 1⟩⟩], 1⟩⟩ .leaf, 1⟩, .constant 7, 1⟩,
        ⟨#[⟨"a".toUTF8, 20000⟩], 100, ⟨20000, 100⟩, some ⟨0, 0, 1⟩, 1⟩) := by
    cbv
  have h₂ : (⟨⟨.node .leaf ⟨0, 7, ⟨#[⟨none, ⟨0, 0, 1⟩⟩], 1⟩⟩ .leaf, 1⟩, .constant 7, 1⟩ : Table).get
      ⟨⟨#[⟨"a".toUTF8, 20000⟩], 100, ⟨20000, 100⟩, some ⟨0, 0, 1⟩, 1⟩, false⟩ "B" =
      .ok (⟨0, 1⟩, t, a) := by
    cbv
  have hr : Reachable t a := .get (.get (.empty _ _) h₁) h₂
  exact ⟨hr, reachable_wellFormed hr⟩

end Table

end Lexicon
