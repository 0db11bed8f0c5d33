import Mathlib
import Lexicon.Proofs.Table.Shared

/-!
# Room for a lookup

A lookup fails only for resources: its trial copy needs a chunk with room, which may mean opening
one and growing the chunk index, and the string, its chunk number and its offset must each fit a
32-bit field; a new symbol needs a slot of its bucket or a node of the tree, whose numbers must fit
one too, and a full bucket or a new node needs room from the allocator. Here are bounds under
which none of this fails.

An arena is bounded when its chunk size fits a 32-bit field and every chunk holds at most its
room, which fits one too. A lowercase copy of a name that fits a 32-bit field into a bounded arena
with fewer chunks than a 32-bit field counts succeeds when the allocator grants the chunk it may
open and the index it may grow; it keeps the arena bounded and opens at most one chunk. A lookup
into a well-formed table with at most `fieldMax` symbols then succeeds, when the allocator grants a
bucket of twice as many symbols as the table has and a node vector of one more node.

* `Arena.Bounded`: the bounds, and that every call of a lookup keeps them.
* `Arena.allocLower_ok`: the trial copy is made.
* `Table.WellFormed.get_ok`, `Table.get_bounded`: the lookup succeeds, and keeps the bounds.
-/

namespace Lexicon

namespace Arena

variable {a a₁ a' : Arena} {len i : Nat}

/-- The bounds under which a string that fits a 32-bit field can be stored: the chunk size fits a
32-bit field, and every chunk holds at most its room, which fits one too. -/
structure Bounded (a : Arena) : Prop where
  chunkSize : a.config.chunkSize ≤ fieldMax
  room : ∀ (j : Nat) (c : Chunk), a.chunks[j]? = some c → c.bytes.size ≤ c.capacity
  capacity : ∀ (j : Nat) (c : Chunk), a.chunks[j]? = some c → c.capacity ≤ fieldMax

theorem bounded_empty {config : Config} (h : config.chunkSize ≤ fieldMax) :
    (empty config).Bounded where
  chunkSize := by
    simp only [empty, Config.clamp, fieldMax] at h ⊢
    omega
  room _ _ hc := by simp [empty] at hc
  capacity _ _ hc := by simp [empty] at hc

/-- Rewriting the bytes of one chunk within its room keeps the bounds. -/
theorem Bounded.modify (hb : a.Bounded) {f : Chunk → Chunk} (hch : a'.chunks = a.chunks.modify i f)
    (hcfg : a'.config = a.config)
    (hf : ∀ c, a.chunks[i]? = some c → (f c).bytes.size ≤ c.capacity ∧ (f c).capacity = c.capacity) :
    a'.Bounded := by
  refine ⟨hcfg ▸ hb.chunkSize, fun j d hd => ?_, fun j d hd => ?_⟩ <;> rw [hch] at hd <;>
    rcases getElem?_modify_eq_some hd with ⟨rfl, x, hx, rfl⟩ | ⟨-, hd⟩
  · exact (hf x hx).2 ▸ (hf x hx).1
  · exact hb.room j d hd
  · exact (hf x hx).2 ▸ hb.capacity _ x hx
  · exact hb.capacity j d hd

/-- Giving a string back keeps the bounds: it only cuts a chunk's bytes. -/
theorem Bounded.reclaimTail (hb : a.Bounded) {h : Handle} {b : Bool}
    (hr : a.reclaimTail h = some (b, a')) : a'.Bounded := by
  rcases reclaimTail_eq hr with ⟨-, -, -, -, rfl⟩ | ⟨-, rfl⟩
  · refine hb.modify (f := fun c => { c with bytes := c.bytes.extract 0 h.start }) rfl rfl
      fun x hx => ⟨?_, rfl⟩
    have := hb.room _ x hx
    simp only [ByteArray.size_extract]
    omega
  · exact hb

theorem reclaimTail_chunks {h : Handle} {b : Bool} (hr : a.reclaimTail h = some (b, a')) :
    a'.chunks.size = a.chunks.size ∧ a'.config = a.config := by
  rcases reclaimTail_eq hr with ⟨-, -, -, -, rfl⟩ | ⟨-, rfl⟩
  · simp
  · exact ⟨rfl, rfl⟩

section Allocating

variable [Allocator]

theorem config_openChunk (h : a.openChunk len = .ok (i, a₁)) : a₁.config = a.config := by
  unfold openChunk at h
  dsimp only at h
  split at h
  · cases h
  · split at h
    · cases h
    · cases h
      rfl

theorem config_chunkFor (h : a.chunkFor len = .ok (i, a₁)) : a₁.config = a.config := by
  unfold chunkFor at h
  split at h
  · split at h
    · cases h
      rfl
    · exact config_openChunk h
  · exact config_openChunk h

/-- A chunk opens when the allocator grants its room and, if the index is full, the index grown
by one step. -/
theorem openChunk_ok (hchunk : Allocator.grantsChunk (max a.config.chunkSize len) = true)
    (hidx : a.chunks.size = a.slots → Allocator.grantsIndex (a.chunks.size + a.config.indexStep) = true) :
    ∃ r, a.openChunk len = .ok r := by
  unfold openChunk
  dsimp only
  rw [if_neg (by simp [hchunk]), if_neg fun h => by simp [hidx h.1] at h]
  exact ⟨_, rfl⟩

theorem chunkFor_ok (hchunk : Allocator.grantsChunk (max a.config.chunkSize len) = true)
    (hidx : a.chunks.size = a.slots → Allocator.grantsIndex (a.chunks.size + a.config.indexStep) = true) :
    ∃ r, a.chunkFor len = .ok r := by
  unfold chunkFor
  split
  · split
    · exact ⟨_, rfl⟩
    · exact openChunk_ok hchunk hidx
  · exact openChunk_ok hchunk hidx

/-- Choosing a chunk for a string that fits a 32-bit field keeps the bounds: a chunk it opens is
empty, with room for the chunk size or the string. -/
theorem Bounded.chunkFor (hb : a.Bounded) (hlen : len ≤ fieldMax)
    (h : a.chunkFor len = .ok (i, a₁)) : a₁.Bounded := by
  have hconfig := config_chunkFor h
  unfold Arena.chunkFor at h
  -- the chunks stay, or an empty one of room `max chunkSize len` joins them
  have hnew : a₁ = a ∨ a₁.chunks = a.chunks.push ⟨.empty, max a.config.chunkSize len⟩ := by
    split at h
    · split at h
      · cases h
        exact .inl rfl
      · exact .inr (openChunk_eq_ok h).2.2.2
    · exact .inr (openChunk_eq_ok h).2.2.2
  rcases hnew with rfl | hch
  · exact hb
  refine ⟨hconfig ▸ hb.chunkSize, fun j c hc => ?_, fun j c hc => ?_⟩ <;>
    rw [hch, Array.getElem?_push] at hc <;> split at hc
  · cases hc
    simp
  · exact hb.room j c hc
  · cases hc
    have := hb.chunkSize
    exact max_le this hlen
  · exact hb.capacity j c hc

/-- A string that fits a 32-bit field is stored in a bounded arena with fewer chunks than a 32-bit
field counts, when the allocator grants the chunk it may open and the index it may grow. -/
theorem allocBytes_ok {bytes : ByteArray} (hb : a.Bounded) (hlen : bytes.size ≤ fieldMax)
    (hcount : a.chunks.size ≤ fieldMax)
    (hgrant : Allocator.grantsChunk (max a.config.chunkSize bytes.size) = true)
    (hidx : a.chunks.size = a.slots → Allocator.grantsIndex (a.chunks.size + a.config.indexStep) = true) :
    ∃ r, a.allocBytes bytes = .ok r := by
  obtain ⟨⟨i, a₁⟩, hchunk⟩ := chunkFor_ok hgrant hidx
  obtain ⟨hi, -, -, hch⟩ := chunkFor_eq_ok hchunk
  obtain ⟨c, hc, -⟩ := chunkFor_room hb.room hchunk
  have hb₁ := hb.chunkFor hlen hchunk
  -- the chunk number is below the index's limit, the offset within the chunk's room
  have hnum : i ≤ fieldMax := by
    have hsz : a₁.chunks.size ≤ a.chunks.size + 1 := by
      rcases hch with hch | ⟨c₀, -, hch⟩ <;> simp [hch]
    omega
  have hstart : c.bytes.size ≤ fieldMax := (hb₁.room i c hc).trans (hb₁.capacity i c hc)
  unfold allocBytes
  simp only [fitField, if_pos hlen, bind, Except.bind, hchunk, hc, Option.map_some, Option.getD_some,
    if_pos hnum, if_pos hstart]
  exact ⟨_, rfl⟩

/-- Storing a string that fits a 32-bit field keeps the bounds: it lands in a chunk with room for
it. -/
theorem Bounded.allocBytes {bytes : ByteArray} {h : Handle} (hb : a.Bounded)
    (hlen : bytes.size ≤ fieldMax) (hok : a.allocBytes bytes = .ok (h, a')) : a'.Bounded := by
  obtain ⟨a₁, c, hchunk, hc, -, -, rfl⟩ := allocBytes_eq_ok hok
  obtain ⟨c', hc', hfit⟩ := chunkFor_room hb.room hchunk
  refine (hb.chunkFor hlen hchunk).modify (f := fun c => { c with bytes := c.bytes ++ bytes }) rfl rfl
    fun x hx => ?_
  rw [hc'] at hx
  cases hx
  exact ⟨by simpa [ByteArray.size_append] using hfit, rfl⟩

theorem allocLower_ok {n : String} (hb : a.Bounded) (hlen : n.utf8ByteSize ≤ fieldMax)
    (hcount : a.chunks.size ≤ fieldMax)
    (hgrant : Allocator.grantsChunk (max a.config.chunkSize n.utf8ByteSize) = true)
    (hidx : a.chunks.size = a.slots → Allocator.grantsIndex (a.chunks.size + a.config.indexStep) = true) :
    ∃ r, a.allocLower n = .ok r := by
  rw [allocLower_eq]
  exact allocBytes_ok hb (by rwa [size_toUTF8, utf8ByteSize_canonical]) hcount
    (by rwa [size_toUTF8, utf8ByteSize_canonical]) hidx

theorem Bounded.allocLower {n : String} {h : Handle} (hb : a.Bounded)
    (hlen : n.utf8ByteSize ≤ fieldMax) (hok : a.allocLower n = .ok (h, a')) : a'.Bounded := by
  rw [allocLower_eq] at hok
  exact hb.allocBytes (by rwa [size_toUTF8, utf8ByteSize_canonical]) hok

/-- A copy opens at most one chunk and keeps the sizing. -/
theorem allocLower_chunks {n : String} {h : Handle} (hok : a.allocLower n = .ok (h, a')) :
    a'.chunks.size ≤ a.chunks.size + 1 ∧ a'.config = a.config := by
  rw [allocLower_eq] at hok
  obtain ⟨a₁, c, hchunk, -, -, -, rfl⟩ := allocBytes_eq_ok hok
  obtain ⟨-, -, -, hch⟩ := chunkFor_eq_ok hchunk
  have hconfig := config_chunkFor hchunk
  refine ⟨?_, hconfig⟩
  rcases hch with hch | ⟨c₀, -, hch⟩ <;> simp [hch]

end Allocating

end Arena

namespace Bucket

/-- A push succeeds when the slot fits a 32-bit field and, if the bucket is full, the allocator
grants its doubled room. -/
theorem push_ok [Allocator] {b : Bucket} (s : Symbol) (h : b.len ≤ fieldMax)
    (hgrow : b.symbols.size = b.capacity → Allocator.grantsBucket (b.capacity * growthFactor) = true) :
    ∃ r, b.push s = .ok r := by
  rw [push_eq, if_pos (show b.symbols.size ≤ fieldMax from h),
    if_neg fun hfull => by simp [hgrow hfull.1] at hfull]
  exact ⟨_, rfl⟩

end Bucket

namespace Table

variable {t t' : Table} {a a₁ a' : Arena} {n : String}

/-- A bucket of a well-formed table holds at most the table's symbols. -/
theorem WellFormed.len_le {e : Splay.Entry Bucket} (hw : t.WellFormed a) (he : e ∈ t.tree.entries) :
    e.value.len ≤ t.len := by
  rw [len, hw.count]
  exact List.le_sum_of_mem (List.mem_map_of_mem he)

/-- A well-formed table has at most as many nodes as symbols: no bucket is empty. -/
theorem WellFormed.size_le (hw : t.WellFormed a) : t.tree.size ≤ t.len := by
  rw [← hw.tree.length_entries, len, hw.count, ← List.length_map (f := (·.value.len))]
  refine List.length_le_sum_of_one_le _ fun m hm => ?_
  obtain ⟨e, he, rfl⟩ := List.mem_map.mp hm
  exact (hw.buckets e he).nonempty

/-- Giving the trial copy back keeps the bounds, the chunks and the sizing. -/
theorem giveBack_bounded (hb : a.Bounded) (trial : Arena.Handle) :
    (giveBack a trial).Bounded ∧ (giveBack a trial).chunks.size = a.chunks.size ∧
      (giveBack a trial).config = a.config := by
  unfold giveBack
  cases hr : a.reclaimTail trial with
  | none => exact ⟨hb, rfl, rfl⟩
  | some p =>
    obtain ⟨b, a'⟩ := p
    simp only [Option.map_some, Option.getD_some]
    exact ⟨hb.reclaimTail hr, Arena.reclaimTail_chunks hr⟩

section Lookups

variable [Allocator]

/-- A lookup into a well-formed table with at most `fieldMax` symbols succeeds once its trial
copy is made, when the allocator grants a bucket of up to twice as many symbols as the table
holds and a node vector of one node more: a new symbol finds a slot in its bucket, or a new
node. -/
theorem WellFormed.get_ok (hw : t.WellFormed a) (hlen : t.len ≤ fieldMax)
    (hbucket : ∀ m ≤ 2 * t.len, Allocator.grantsBucket m = true)
    (hnodes : ∀ m ≤ t.len + 1, Allocator.grantsNodes m = true) {trial : Arena.Handle}
    (halloc : a.allocLower n = .ok (trial, a₁)) : ∃ r, t.get ⟨a, false⟩ n = .ok r := by
  unfold Table.get
  simp only [Bool.false_eq_true, if_false, halloc, bind, Except.bind]
  split
  · next node tree hs =>
    obtain ⟨e, he, -, -, hval⟩ := hw.search_value hs
    have hle := hw.len_le he
    -- a full bucket asks for twice its symbols, at most twice the table's
    have hgrow : e.value.symbols.size = e.value.capacity →
        Allocator.grantsBucket (e.value.capacity * Bucket.growthFactor) = true := by
      intro hfull
      have hsize : e.value.len = e.value.symbols.size := rfl
      exact hbucket _ (by simp only [Bucket.growthFactor]; omega)
    split
    · exact ⟨_, rfl⟩
    · obtain ⟨⟨slot, b⟩, hp⟩ := Bucket.push_ok (b := (tree.value? node).getD .empty)
        (.ofHandle trial) (by rw [hval, Option.getD_some]; exact hle.trans hlen)
        (by rw [hval, Option.getD_some]; exact hgrow)
      rw [hp]
      exact ⟨_, rfl⟩
  · have hsize := hw.size_le
    obtain ⟨tree, hi⟩ := SplayTree.insert_ok (k := t.hasher.hash (canonical n))
      (Bucket.single (.ofHandle trial)) (hsize.trans hlen) (hnodes _ (by omega))
    rw [hi]
    exact ⟨_, rfl⟩

/-- A lookup keeps the arena bounded, opens at most one chunk and keeps the sizing. -/
theorem get_bounded (hb : a.Bounded) (hlen : n.utf8ByteSize ≤ fieldMax) {held : Bool}
    {id : SymbolId} (h : t.get ⟨a, held⟩ n = .ok (id, t', a')) :
    a'.Bounded ∧ a'.chunks.size ≤ a.chunks.size + 1 ∧ a'.config = a.config := by
  obtain ⟨-, trial, a₁, halloc, ⟨-, -, -, -, rfl⟩ | ⟨-, -, -, -, -, -, rfl⟩ |
    ⟨-, -, -, -, -, rfl⟩⟩ := get_eq_ok h
  · -- the trial copy is given back
    obtain ⟨hsize, hcfg⟩ := Arena.allocLower_chunks halloc
    dsimp only at hsize hcfg
    obtain ⟨hb₂, hsize', hcfg'⟩ := giveBack_bounded (hb.allocLower hlen halloc) trial
    exact ⟨hb₂, by omega, hcfg'.trans hcfg⟩
  · exact ⟨hb.allocLower hlen halloc, Arena.allocLower_chunks halloc⟩
  · exact ⟨hb.allocLower hlen halloc, Arena.allocLower_chunks halloc⟩

end Lookups

end Table

end Lexicon
