import ReadCache.Proofs.ShardedMap

namespace ReadCache

inductive MapUse (K V : Type) where
  | insert (k : K) (v : V)
  | get (k : K)
  | remove (k : K)
  | clear

namespace MapUse
variable {K V M : Type} [DecidableEq K]

def onShards : MapUse K V → ShardedMap K V → Option V × ShardedMap K V
  | insert k v, m => (m.get? k, m.insert k v)
  | get k, m => (m.get? k, m)
  | remove k, m => (m.get? k, m.erase k)
  | clear, m => (none, m.clear)

def onFinmap : MapUse K V → Finmap (fun _ : K ↦ V) → Option V × Finmap (fun _ : K ↦ V)
  | insert k v, f => (f.lookup k, f.insert k v)
  | get k, f => (f.lookup k, f)
  | remove k, f => (f.lookup k, f.erase k)
  | clear, _ => (none, ∅)

def runAll (act : MapUse K V → M → Option V × M) : List (MapUse K V) → M → List (Option V) × M
  | [], m => ([], m)
  | use :: rest, m =>
    let (answer, m) := act use m
    let (answers, last) := runAll act rest m
    (answer :: answers, last)

end MapUse

namespace ShardedMap
variable {K V : Type} {m : ShardedMap K V}

theorem shard_clear (m : ShardedMap K V) (i : Nat) : m.clear.shard i = [] := by
  simp only [shard, clear, Array.getD_eq_getD_getElem?, Array.getElem?_map]
  cases m.shards[i]? <;> rfl

theorem toList_clear (m : ShardedMap K V) : m.clear.toList = [] := by
  simp [clear, toList]

@[simp] theorem shardCount_clear (m : ShardedMap K V) : m.clear.shardCount = m.shardCount := by
  simp [clear, shardCount]

theorem Proper.clear (h : m.Proper) : m.clear.Proper where
  shards_pos := by simpa using h.shards_pos
  home i b hb := by
    rw [shard_clear] at hb
    cases hb
  nodup := by simp [toList_clear]

theorem size_eq_length (m : ShardedMap K V) : m.size = m.toList.length := by
  have hsum (l : List (Bindings K V)) (n : Nat) :
      l.foldl (· + ·.length) n = n + l.flatten.length := by
    induction l generalizing n with
    | nil => rfl
    | cons b l ih =>
      rw [List.foldl_cons, ih, List.flatten_cons, List.length_append]
      omega
  rw [size, ← Array.foldl_toList, hsum, toList, Nat.zero_add]

theorem isEmpty_iff (m : ShardedMap K V) : m.isEmpty = true ↔ m.size = 0 := by
  rw [size_eq_length, List.length_eq_zero_iff, toList, List.flatten_eq_nil_iff, isEmpty,
    Array.all_eq_true_iff_forall_mem]
  simp [List.isEmpty_iff]

theorem home_eq_mod {e : Nat} (h : m.shardCount = 2 ^ e) (k : K) :
    m.home k = (m.hash k).toNat % m.shardCount := by
  rw [home, h, Nat.and_two_pow_sub_one_eq_mod]

variable [DecidableEq K]

/-- The map shows the bindings of `f`: its shards one after the other list each of them once, and it
lies in the shard that its key's hash gives, and in no other. -/
structure Shows (m : ShardedMap K V) (f : Finmap fun _ : K ↦ V) : Prop where
  once : ((m.toList.map fun b ↦ (⟨b.1, b.2⟩ : Sigma fun _ : K ↦ V)) : Multiset _) = f.entries
  placed : ∀ i k v, (k, v) ∈ m.shard i ↔ m.home k = i ∧ f.lookup k = some v
  size : m.size = f.keys.card
  isEmpty : m.isEmpty = true ↔ m.size = 0

def Proper.toFinmap (h : m.Proper) : Finmap fun _ : K ↦ V where
  entries := m.toList.map fun b ↦ (⟨b.1, b.2⟩ : Sigma fun _ : K ↦ V)
  nodupKeys := by
    have hn := h.nodup
    simpa [Multiset.coe_nodupKeys, List.NodupKeys, List.keys, Function.comp_def] using hn

theorem Proper.lookup_toFinmap (h : m.Proper) (k : K) : h.toFinmap.lookup k = m.get? k := by
  ext v
  have hmem : (⟨k, v⟩ : Sigma fun _ : K ↦ V) ∈ h.toFinmap.entries ↔ (k, v) ∈ m.toList := by
    simp [toFinmap]
  rw [h.get?_eq_some_iff, ← hmem]
  exact Finmap.lookup_eq_some_iff

theorem Proper.shows (h : m.Proper) {f : Finmap fun _ : K ↦ V}
    (hf : ∀ k, f.lookup k = m.get? k) : m.Shows f := by
  have he : f = h.toFinmap := Finmap.ext_lookup fun k ↦ (hf k).trans (h.lookup_toFinmap k).symm
  refine ⟨?once, ?placed, ?size, m.isEmpty_iff⟩
  case once =>
    rw [he]
    rfl
  case placed =>
    intro i k v
    rw [hf, h.get?_eq_some_iff]
    constructor
    · intro hm
      exact ⟨h.home i _ hm, mem_toList_of_mem_shard hm⟩
    · rintro ⟨rfl, hm⟩
      exact h.mem_home hm
  case size =>
    have hcard : f.keys.card = f.entries.keys.card := rfl
    rw [hcard, he, toFinmap, Multiset.keys, Multiset.card_map, Multiset.coe_card, List.length_map,
      size_eq_length]

/-- The map has the bindings of `f`, and its shards are as they were when it was made. -/
structure Tracks (start m : ShardedMap K V) (f : Finmap fun _ : K ↦ V) : Prop where
  proper : m.Proper
  lookup : ∀ k, f.lookup k = m.get? k
  hash : m.hash = start.hash
  shardCount : m.shardCount = start.shardCount

theorem tracks_empty (hash : K → UInt64) (asked : Nat) :
    Tracks (empty hash asked : ShardedMap K V) (empty hash asked) ∅ where
  proper := proper_empty hash asked
  lookup k := by
    have hnone : (empty hash asked : ShardedMap K V).get? k = none := by
      rw [(proper_empty hash asked).get?_eq_none_iff, toList_empty]
      exact List.not_mem_nil
    rw [Finmap.lookup_empty, hnone]
  hash := rfl
  shardCount := rfl

variable {start : ShardedMap K V} {f : Finmap fun _ : K ↦ V}

theorem Tracks.use (h : Tracks start m f) (use : MapUse K V) :
    (use.onShards m).1 = (use.onFinmap f).1 ∧
      Tracks start (use.onShards m).2 (use.onFinmap f).2 := by
  have hpos := h.proper.shards_pos
  cases use with
  | insert k v =>
    refine ⟨(h.lookup k).symm, h.proper.insert k v, ?_, h.hash, ?_⟩
    · intro k'
      simp only [MapUse.onFinmap, MapUse.onShards]
      by_cases hk : k = k'
      · subst hk
        rw [Finmap.lookup_insert, get?_insert_self hpos]
      · rw [Finmap.lookup_insert_of_ne _ (Ne.symm hk), get?_insert_ne m v hk, h.lookup]
    · exact (shardCount_insert m k v).trans h.shardCount
  | get k => exact ⟨(h.lookup k).symm, h⟩
  | remove k =>
    refine ⟨(h.lookup k).symm, h.proper.erase k, ?_, h.hash, ?_⟩
    · intro k'
      simp only [MapUse.onFinmap, MapUse.onShards]
      by_cases hk : k = k'
      · subst hk
        rw [Finmap.lookup_erase, get?_erase_self hpos]
      · rw [Finmap.lookup_erase_ne (Ne.symm hk), get?_erase_ne m hk, h.lookup]
    · exact (shardCount_erase m k).trans h.shardCount
  | clear =>
    refine ⟨rfl, h.proper.clear, ?_, h.hash, ?_⟩
    · intro k
      have hnone : m.clear.get? k = none := by
        rw [h.proper.clear.get?_eq_none_iff, toList_clear]
        exact List.not_mem_nil
      exact (Finmap.lookup_empty k).trans hnone.symm
    · exact (shardCount_clear m).trans h.shardCount

theorem Tracks.run (h : Tracks start m f) (uses : List (MapUse K V)) :
    (MapUse.runAll MapUse.onShards uses m).1 = (MapUse.runAll MapUse.onFinmap uses f).1 ∧
      Tracks start (MapUse.runAll MapUse.onShards uses m).2
        (MapUse.runAll MapUse.onFinmap uses f).2 := by
  induction uses generalizing m f with
  | nil => exact ⟨rfl, h⟩
  | cons use rest ih =>
    obtain ⟨hanswer, hnext⟩ := h.use use
    obtain ⟨hanswers, hlast⟩ := ih hnext
    refine ⟨?_, hlast⟩
    simp only [MapUse.runAll]
    rw [hanswer, hanswers]

/-- A map is made with the least power of two of shards that is no less than asked for, if so many
can be had. Whatever is then done with it, each answer is that of one finite map, and so are the
bindings in the end; and the shard of a key is always the one that its hash leaves over. -/
theorem runs_as_one_map (hash : K → UInt64) (asked : UInt64) (uses : List (MapUse K V)) :
    let start : ShardedMap K V := empty hash asked.toNat
    let (answers, m) := MapUse.runAll MapUse.onShards uses start
    let (answers', f) := MapUse.runAll MapUse.onFinmap uses ∅
    (create? hash asked = some start ∨
        create? hash asked = (none : Option (ShardedMap K V)) ∧ 2 ^ 63 ≤ start.shardCount * 128) ∧
      IsLeast {n | max 1 asked.toNat ≤ n ∧ ∃ e, n = 2 ^ e} m.shardCount ∧
      answers = answers' ∧ m.Shows f ∧
      ∀ k, m.home k = (hash k).toNat % m.shardCount ∧ m.home k < m.shardCount := by
  intro start
  obtain ⟨hanswers, hlast⟩ := (tracks_empty hash asked.toNat).run uses
  have hcount : start.shardCount = powerOfTwoFrom asked.toNat := by
    simp [start, empty, shardCount]
  have hleast : IsLeast {n | max 1 asked.toNat ≤ n ∧ ∃ e, n = 2 ^ e}
      (MapUse.runAll MapUse.onShards uses start).2.shardCount := by
    rw [hlast.shardCount]
    exact hcount ▸ isLeast_powerOfTwoFrom asked.toNat
  obtain ⟨e, he⟩ := hleast.1.2
  refine ⟨?create, hleast, hanswers, hlast.proper.shows hlast.lookup, ?homes⟩
  case create =>
    rw [hcount]
    unfold create?
    split
    · exact .inl rfl
    · rename_i hlarge
      exact .inr ⟨rfl, Nat.le_of_not_lt hlarge⟩
  case homes =>
    intro k
    have hhome := home_eq_mod he k
    rw [hlast.hash] at hhome
    exact ⟨hhome, home_lt hlast.proper.shards_pos k⟩

end ShardedMap
end ReadCache
