import Asap.Lib.Run
import Mathlib.Logic.Function.Basic

/-!
# The max-heap index

Pairs of a key and a value are appended to buckets. A bucket takes the hashed keys of a range; when
it is full, two buckets for the halves of the range are made below it. The keys of a range of
values are looked up one after the other, bottom up along the path of buckets whose ranges have the
key. Copies of buckets are kept in a cache, and the numbers of pairs in a table.

The two files read as zero where nothing has been written. Files can be read at any time; what is
written can fail, without effect. The hash is what the random generator returns first for a key.

## Main definitions

* `MaxHeap` — the files, the table and the cache.
* `insertItem`, `getNext` — an insertion, and the next value of an iterator.
* `MaxHeap.step` — what happens to an index.
-/

namespace Asap.Antelope

/-- `BUCKET_SIZE` -/
def bucketSize : ℕ := 128

/-- `NODE_LIMIT` -/
def nodeLimit : ℕ := 511

/-- `NODE_DEPTH` -/
def nodeDepth : ℕ := 9

/-- `heap_node_t` -/
structure HeapNode where
  min : BitVec 16
  max : BitVec 16
deriving DecidableEq

/-- `struct key_value_pair` -/
structure KeyValuePair where
  key : BitVec 16
  value : BitVec 16
deriving DecidableEq

/-- `EMPTY_NODE` -/
def HeapNode.Empty (node : HeapNode) : Prop := node.min = 0 ∧ node.max = 0

instance (node : HeapNode) : Decidable node.Empty := inferInstanceAs (Decidable (_ ∧ _))

/-- `EMPTY_PAIR` -/
def KeyValuePair.Empty (pair : KeyValuePair) : Prop := pair.key = 0 ∧ pair.value = 0

instance (pair : KeyValuePair) : Decidable pair.Empty := inferInstanceAs (Decidable (_ ∧ _))

/-- The hash of the keys, and `DB_HEAP_CACHE_LIMIT`. -/
structure MaxHeapConfig where
  transformKey : BitVec 16 → BitVec 16
  cacheLimit : ℕ
  cacheLimit_pos : 0 < cacheLimit

/-- `struct bucket_cache`: the bucket of the heap that is kept, if one is, and its pairs. -/
structure BucketCache where
  bucketId : Option ℕ
  bucket : ℕ → KeyValuePair

/-- The file of the nodes, the file of the buckets, `next_free_slot` and the cache. The pairs of
the insertions that have succeeded are traced, with their tuples. -/
structure MaxHeap where
  nodes : ℕ → HeapNode
  pairs : ℕ → ℕ → KeyValuePair
  nextFreeSlot : ℕ → ℕ
  cache : ℕ → BucketCache
  inserted : List (BitVec 16 × BitVec 32)

/-! ## Nodes -/

section

variable (nodes : ℕ → HeapNode)

/-- The loop of `heap_find`. -/
def heapFindLoop (hashedKey : BitVec 16) : ℕ → ℕ → Option ℕ
  | 0, _ => none
  | fuel + 1, i =>
    if (nodes i).Empty then none
    else if (nodes i).min ≤ hashedKey ∧ hashedKey ≤ (nodes i).max then
      if nodeLimit ≤ 2 * i + 1 then none else some i
    else heapFindLoop hashedKey fuel (i + 1)

/-- `heap_find`, from an iterator on. The iterator is then at the first child of what is found. -/
def heapFind (hashedKey : BitVec 16) (iterator : ℕ) : Option ℕ :=
  heapFindLoop nodes hashedKey (nodeLimit - iterator) iterator

/-- What `heap_find` finds when it is called again and again. -/
def heapPath (hashedKey : BitVec 16) : ℕ → ℕ → List ℕ
  | 0, _ => []
  | fuel + 1, iterator =>
    match heapFind nodes hashedKey iterator with
    | none => []
    | some i => i :: heapPath hashedKey fuel (2 * i + 1)

/-- The loop of `heap_insert`. -/
def heapInsertLoop (min max : BitVec 16) (written : Bool) : ℕ → ℕ → Option (ℕ → HeapNode)
  | 0, _ => none
  | fuel + 1, i =>
    if nodeLimit ≤ i then none
    else if (nodes i).Empty then
      if written then some (Function.update nodes i ⟨min, max⟩) else none
    else if (nodes i).min ≤ min ∧ max ≤ (nodes i).max then
      heapInsertLoop min max written fuel (2 * i + 1)
    else heapInsertLoop min max written fuel (i + 1)

/-- `heap_insert`: the nodes afterwards, if a node is added. -/
def heapInsert (min max : BitVec 16) (written : Bool) : Option (ℕ → HeapNode) :=
  if max < min then none else heapInsertLoop nodes min max written nodeLimit 0

/-- Which of the writes of an insertion succeed. -/
structure Writes where
  small : Bool
  large : Bool
  pair : Bool

/-- `bucket_split`: whether it succeeds, and the nodes afterwards. -/
def bucketSplit (bucketId : ℕ) (writes : Writes) : Bool × (ℕ → HeapNode) :=
  let node := nodes bucketId
  let mean := node.min + (node.max - node.min) / 2
  match heapInsert nodes node.min mean writes.small with
  | none => (false, nodes)
  | some nodes =>
    match heapInsert nodes (mean + 1) node.max writes.large with
    | none => (false, nodes)
    | some nodes => (true, nodes)

end

namespace MaxHeap

variable (cfg : MaxHeapConfig) (s : MaxHeap)

/-! ## Insertions -/

/-- The bucket that `insert_item` appends to, and the nodes afterwards. -/
def chooseBucket (key : BitVec 16) (writes : Writes) : Option ℕ × (ℕ → HeapNode) :=
  match (heapPath s.nodes (cfg.transformKey key) nodeLimit 0).getLast? with
  | none => (none, s.nodes)
  | some b =>
    if s.nextFreeSlot b = bucketSize then
      match bucketSplit s.nodes b writes with
      | (false, nodes) => (none, nodes)
      | (true, nodes) => (heapFind nodes (cfg.transformKey key) (2 * b + 1), nodes)
    else (some b, s.nodes)

/-- `bucket_append`, if there is room. -/
def bucketAppend (bucketId : ℕ) (pair : KeyValuePair) (written : Bool) : Option MaxHeap :=
  if bucketSize ≤ s.nextFreeSlot bucketId ∨ written = false then none
  else some { s with
    pairs := Function.update s.pairs bucketId
      (Function.update (s.pairs bucketId) (s.nextFreeSlot bucketId) pair)
    nextFreeSlot := Function.update s.nextFreeSlot bucketId (s.nextFreeSlot bucketId + 1) }

/-- `insert_item`, for the pair that `insert` makes of a key and a tuple: whether it succeeds. -/
def insertItem (key : BitVec 16) (tuple : BitVec 32) (writes : Writes) : Bool × MaxHeap :=
  match s.chooseBucket cfg key writes with
  | (none, nodes) => (false, { s with nodes })
  | (some b, nodes) =>
    match { s with nodes }.bucketAppend b ⟨key, tuple.setWidth 16⟩ writes.pair with
    | none => (false, { s with nodes })
    | some s => (true, { s with inserted := s.inserted ++ [(key, tuple)] })

/-! ## Buckets in the cache -/

/-- `get_cache` -/
def getCache (bucketId : ℕ) : Option ℕ :=
  (List.range cfg.cacheLimit).find? fun e => (s.cache e).bucketId = some bucketId

/-- `get_cache_free` -/
def getCacheFree : Option ℕ :=
  (List.range cfg.cacheLimit).find? fun e => (s.cache e).bucketId = none

/-- `invalidate_cache` -/
def invalidateCache : MaxHeap :=
  match (List.range cfg.cacheLimit).find? fun e => (s.cache e).bucketId ≠ none with
  | none => s
  | some e =>
    { s with cache := Function.update s.cache e { s.cache e with bucketId := none } }

/-- `bucket_read`, to an entry of the cache: the pairs that are there are overwritten as far as
the bucket is filled. -/
def bucketRead (bucketId : ℕ) (bucket : ℕ → KeyValuePair) (i : ℕ) : KeyValuePair :=
  let size := if s.nextFreeSlot bucketId = 0 then bucketSize else s.nextFreeSlot bucketId
  if i < size then s.pairs bucketId i else bucket i

/-- The first free slot of a bucket that is read. -/
def firstFree (bucket : ℕ → KeyValuePair) : ℕ :=
  ((List.range bucketSize).find? fun i => (bucket i).Empty).getD bucketSize

/-- A bucket is read to an entry of the cache. -/
def fillCache (e bucketId : ℕ) : MaxHeap :=
  let bucket := s.bucketRead bucketId (s.cache e).bucket
  { s with
    cache := Function.update s.cache e ⟨some bucketId, bucket⟩
    nextFreeSlot :=
      if s.nextFreeSlot bucketId = 0 then
        Function.update s.nextFreeSlot bucketId (firstFree bucket)
      else s.nextFreeSlot }

/-- `bucket_load`: the entry of the cache with the bucket. -/
def bucketLoad (bucketId : ℕ) : Option (ℕ × MaxHeap) :=
  match s.getCache cfg bucketId with
  | some e => some (e, s)
  | none =>
    match s.getCacheFree cfg with
    | some e => some (e, s.fillCache e bucketId)
    | none =>
      ((s.invalidateCache cfg).getCacheFree cfg).map fun e =>
        (e, (s.invalidateCache cfg).fillCache e bucketId)

end MaxHeap

/-! ## Iterators -/

/-- `index_iterator_t`, with its address. -/
structure IndexIterator where
  address : ℕ
  minValue : ℕ
  maxValue : ℕ
  nextItemNo : ℕ

/-- `struct iteration_cache`: the iterator, and the buckets from `heap_iterator` on upwards. -/
structure IterationCache where
  indexIterator : Option ℕ
  foundItems : ℕ
  start : ℕ
  buckets : List ℕ

/-- The search for the item in a bucket: its slot, and `found_items` afterwards. -/
def scanSlots (bucket : ℕ → KeyValuePair) (key : BitVec 16) (itemNo : ℕ) :
    ℕ → ℕ → ℕ → Option ℕ × ℕ
  | 0, _, foundItems => (none, foundItems)
  | fuel + 1, i, foundItems =>
    if (bucket i).key = key then
      if foundItems = itemNo then (some i, foundItems + 1)
      else scanSlots bucket key itemNo fuel (i + 1) (foundItems + 1)
    else scanSlots bucket key itemNo fuel (i + 1) foundItems

/-- What a search ends with: an item, the end of the buckets, or a bucket that is not loaded. -/
inductive ScanResult
  | item (value : BitVec 16)
  | finished
  | failed

section

variable (cfg : MaxHeapConfig)

/-- The loop of `get_next` over the buckets of a key. -/
def scanBuckets (key : BitVec 16) (itemNo : ℕ) :
    List ℕ → MaxHeap → IterationCache → ScanResult × MaxHeap × IterationCache
  | [], s, cache => (.finished, s, { cache with buckets := [] })
  | b :: bs, s, cache =>
    match s.bucketLoad cfg b with
    | none => (.failed, s, { cache with buckets := b :: bs })
    | some (e, s) =>
      match scanSlots (s.cache e).bucket key itemNo (s.nextFreeSlot b - cache.start) cache.start
          cache.foundItems with
      | (some i, foundItems) =>
        (.item ((s.cache e).bucket i).value, s,
          { cache with foundItems, start := i + 1, buckets := b :: bs })
      | (none, foundItems) => scanBuckets key itemNo bs s { cache with foundItems }

/-- `iteration_cache`, initialised for a new search. -/
def IterationCache.ofIterator (s : MaxHeap) (iterator : IndexIterator) :
    IterationCache where
  indexIterator := some iterator.address
  foundItems := 0
  start := 0
  buckets :=
    (heapPath s.nodes (cfg.transformKey (BitVec.ofNat 16 iterator.minValue)) nodeDepth 0).reverse

/-- The calls of `get_next` for the keys of the range. -/
def getNextLoop :
    ℕ → IndexIterator → MaxHeap → IterationCache →
      Option (BitVec 32) × IndexIterator × MaxHeap × IterationCache
  | fuel, iterator, s, cache =>
    let cache :=
      if cache.indexIterator ≠ some iterator.address ∨ iterator.nextItemNo = 0 then
        IterationCache.ofIterator cfg s iterator
      else cache
    match scanBuckets cfg (BitVec.ofNat 16 iterator.minValue) iterator.nextItemNo cache.buckets s
        cache with
    | (.item value, s, cache) =>
      (some (value.setWidth 32), { iterator with nextItemNo := iterator.nextItemNo + 1 }, s, cache)
    | (.failed, s, cache) => (none, iterator, s, cache)
    | (.finished, s, cache) =>
      match fuel with
      | 0 => (none, iterator, s, cache)
      | fuel + 1 =>
        getNextLoop fuel
          { iterator with nextItemNo := 0, minValue := iterator.minValue + 1 } s cache

/-- `get_next`, for an iterator with a range: a call for each of the keys that are left. -/
def getNext (iterator : IndexIterator) (s : MaxHeap)
    (cache : IterationCache) :
    Option (BitVec 32) × IndexIterator × MaxHeap × IterationCache :=
  getNextLoop cfg (iterator.maxValue - iterator.minValue) iterator s cache

end

/-! ## Runs -/

/-- What happens to an index: an insertion, a call of `get_next` for an iterator, or a release and
a load. There is one index, so that it is loaded to the place where it was. -/
inductive HeapEvent
  | insert (key : BitVec 16) (tuple : BitVec 32) (writes : Writes)
  | getNext (iterator : IndexIterator)
  | reload

/-- The index and the static variable of `get_next` after an event. -/
def MaxHeap.step (cfg : MaxHeapConfig) :
    MaxHeap × IterationCache → HeapEvent → MaxHeap × IterationCache
  | (s, cache), .insert key tuple writes => ((s.insertItem cfg key tuple writes).2, cache)
  | (s, cache), .getNext iterator => (getNext cfg iterator s cache).2.2
  | (s, cache), .reload => ({ s with nextFreeSlot := fun _ => 0 }, cache)

/-- The index that `create` makes, with a node for every key. The entries of the cache are free;
the pairs in them do not matter. -/
def MaxHeap.create (bucket : ℕ → ℕ → KeyValuePair) : MaxHeap where
  nodes := Function.update (fun _ => ⟨0, 0⟩) 0 ⟨0, 65535⟩
  pairs := fun _ _ => ⟨0, 0⟩
  nextFreeSlot := fun _ => 0
  cache := fun e => ⟨none, bucket e⟩
  inserted := []

end Asap.Antelope
