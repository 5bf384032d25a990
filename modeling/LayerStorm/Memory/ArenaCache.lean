import LayerStorm.Memory.PinnedArena

/-!
# The persistent record table of the arena

The arena's slots and a table with one record per slot live in shared memory that
survives the process.  A record says which expert its slot holds, from which version
of the expert's file, and whether it may be adopted: `kEmpty`, `kLoading` or
`kActive`.  When a process attaches to the surviving memory, `scan_adoptable` adopts
the slots of the active records whose identity matches the current files, and resets
all other records.

Every store into the shared memory is a single write: one byte of a slot or one field
of a record.  An operation is a list of writes, and a crash leaves a prefix of them.
The reformatting hook is a list of byte writes too, computed from the bytes it finds.
-/

namespace LayerStorm.Memory

/-! ### Keys, file identities and records -/

structure ExpertKey where
  layerIdx : ℕ
  expertIdx : ℕ
  deriving DecidableEq, Repr

/-- The identity of an expert's file; a file that is packed again has another one. -/
structure FileIdentity where
  mtimeNs : ℕ
  sizeBytes : ℕ
  deriving DecidableEq, Repr

/-- `valid`: the file exists. -/
def FileIdentity.valid (f : FileIdentity) : Bool := f.sizeBytes ≠ 0

/-- Whether a slot may be adopted. -/
inductive RecordState
  | empty
  | loading
  | active
  deriving DecidableEq, Repr

structure SlotRecord where
  state : RecordState
  layerIdx : ℕ
  expertIdx : ℕ
  fileMtimeNs : ℕ
  fileSize : ℕ
  keyHash : ℕ
  deriving DecidableEq, Repr

def SlotRecord.key (r : SlotRecord) : ExpertKey := ⟨r.layerIdx, r.expertIdx⟩

def SlotRecord.ident (r : SlotRecord) : FileIdentity := ⟨r.fileMtimeNs, r.fileSize⟩

/-! ### Hashes -/

def fnv1aByte (h byte : ℕ) : ℕ := ((h ^^^ byte) * 0x100000001b3) % 2 ^ 64

/-- `fnv1a_u64`: the eight bytes of a word, lowest first. -/
def fnv1aU64 (v h : ℕ) : ℕ :=
  (List.range 8).foldl (fun h i => fnv1aByte h (v / 2 ^ (8 * i) % 2 ^ 8)) h

def packedKey (key : ExpertKey) : ℕ := (key.layerIdx <<< 16) ||| key.expertIdx

/-- The identity of a key's file, invalid if the table has none. -/
def identOf (idents : List FileIdentity) (key : ExpertKey) : FileIdentity :=
  idents.getD key.expertIdx ⟨0, 0⟩

/-- `key_hash`: an index only, every hit is verified in full. -/
def keyHash (sourceId : ℕ) (idents : List FileIdentity) (key : ExpertKey) : ℕ :=
  let ident := identOf idents key
  fnv1aU64 (packedKey key) (fnv1aU64 ident.sizeBytes (fnv1aU64 ident.mtimeNs
    (fnv1aU64 sourceId 0xcbf29ce484222325)))

/-! ### The store -/

/-- The shared memory: the records and the bytes of all slots, by node and slot. -/
structure Store (β : Type) (size : ℕ) where
  records : ℕ → ℕ → SlotRecord
  mem : ℕ → ℕ → Fin size → β

/-- A single store into the shared memory. -/
inductive PWrite (β : Type) (size : ℕ)
  | byte (node slot : ℕ) (offset : Fin size) (value : β)
  | state (node slot : ℕ) (value : RecordState)
  | layerIdx (node slot value : ℕ)
  | expertIdx (node slot value : ℕ)
  | fileMtimeNs (node slot value : ℕ)
  | fileSize (node slot value : ℕ)
  | keyHash (node slot value : ℕ)

namespace Store

variable {β : Type} {size : ℕ}

variable (st : Store β size)

def modifyRecord (n i : ℕ) (f : SlotRecord → SlotRecord) : Store β size :=
  { st with
    records := Function.update st.records n (Function.update (st.records n) i (f (st.records n i))) }

/-- Rewriting the bytes of one slot. -/
def modifySlot (n i : ℕ) (f : (Fin size → β) → Fin size → β) : Store β size :=
  { st with mem := Function.update st.mem n (Function.update (st.mem n) i (f (st.mem n i))) }

def write : PWrite β size → Store β size
  | .byte n i o v => st.modifySlot n i fun c => Function.update c o v
  | .state n i v => st.modifyRecord n i fun r => { r with state := v }
  | .layerIdx n i v => st.modifyRecord n i fun r => { r with layerIdx := v }
  | .expertIdx n i v => st.modifyRecord n i fun r => { r with expertIdx := v }
  | .fileMtimeNs n i v => st.modifyRecord n i fun r => { r with fileMtimeNs := v }
  | .fileSize n i v => st.modifyRecord n i fun r => { r with fileSize := v }
  | .keyHash n i v => st.modifyRecord n i fun r => { r with keyHash := v }

/-- Shared memory as it is created: all records are empty. -/
def fresh (mem : ℕ → ℕ → Fin size → β) : Store β size := ⟨fun _ _ => ⟨.empty, 0, 0, 0, 0, 0⟩, mem⟩

/-- Stores one after the other. -/
def writes (ws : List (PWrite β size)) : Store β size := ws.foldl write st

end Store

/-! ### The cache -/

/-- What the persistence layer is configured with: the model's source, the bytes of an
expert in a version of its file, and the hook, as the byte writes it does on the bytes it
finds. -/
structure CacheConfig (β : Type) (size : ℕ) where
  sourceId : ℕ
  fileBytes : FileIdentity → ExpertKey → Fin size → β
  postFill : ExpertKey → (Fin size → β) → List (Fin size × β)

namespace CacheConfig

variable {β : Type} {size : ℕ} (cc : CacheConfig β size)

/-- The bytes of a slot after the hook has run on it. -/
def filled (key : ExpertKey) (c : Fin size → β) : Fin size → β :=
  (cc.postFill key c).foldl (fun c w => Function.update c w.1 w.2) c

/-- The writes that fill in a record, except for its state. -/
def identityWrites (idents : List FileIdentity) (n i : ℕ) (key : ExpertKey) :
    List (PWrite β size) :=
  [.layerIdx n i key.layerIdx, .expertIdx n i key.expertIdx,
    .fileMtimeNs n i (identOf idents key).mtimeNs, .fileSize n i (identOf idents key).sizeBytes,
    .keyHash n i (Memory.keyHash cc.sourceId idents key)]

/-- The writes of one call: `on_reuse` kills a record that is not empty, `on_load_start`
stamps it loading and then fills it in, `on_load_ready` fills it in and then publishes it. -/
def callWrites (idents : List FileIdentity) (st : Store β size) :
    Call ExpertKey → List (PWrite β size)
  | .onReuse n i => if (st.records n i).state = .empty then [] else [.state n i .empty]
  | .onLoadStart n i key => .state n i .loading :: cc.identityWrites idents n i key
  | .onLoadReady n i key => cc.identityWrites idents n i key ++ [.state n i .active]
  | .postFill key n i => (cc.postFill key (st.mem n i)).map fun w => .byte n i w.1 w.2

def callsWrites (idents : List FileIdentity) :
    Store β size → List (Call ExpertKey) → List (PWrite β size)
  | _, [] => []
  | st, c :: cs =>
    let ws := cc.callWrites idents st c
    ws ++ callsWrites idents (st.writes ws) cs

/-- The in-memory index after one call: the reuse of a slot drops the entry of the key that
its record names, publishing a record adds one. -/
def callIndex (st : Store β size) (index : ℕ → Option (ℕ × ℕ)) : Call ExpertKey → ℕ → Option (ℕ × ℕ)
  | .onReuse n i =>
    let key := packedKey (st.records n i).key
    if (st.records n i).state ≠ .empty ∧ index key = some (n, i) then Function.update index key none
    else index
  | .onLoadReady n i key => Function.update index (packedKey key) (some (n, i))
  | .onLoadStart _ _ _ | .postFill _ _ _ => index

def callsIndex (idents : List FileIdentity) :
    Store β size → (ℕ → Option (ℕ × ℕ)) → List (Call ExpertKey) → ℕ → Option (ℕ × ℕ)
  | _, index, [] => index
  | st, index, c :: cs =>
    callsIndex idents (st.writes (cc.callWrites idents st c)) (callIndex st index c) cs

/-! ### Queries -/

/-- `identity_matches`: the record's file identity is the current one. -/
def identityMatches (idents : List FileIdentity) (r : SlotRecord) : Bool :=
  r.expertIdx < idents.length && (identOf idents r.key).valid && identOf idents r.key == r.ident

def verifies (idents : List FileIdentity) (r : SlotRecord) : Bool :=
  r.state == .active && identityMatches idents r &&
    r.keyHash == Memory.keyHash cc.sourceId idents r.key

/-- `lookup`: the indexed record of a key, if it is active and names the key. -/
def lookup (idents : List FileIdentity) (st : Store β size) (index : ℕ → Option (ℕ × ℕ))
    (key : ExpertKey) : Option (ℕ × ℕ) :=
  (index (packedKey key)).filter fun p =>
    cc.verifies idents (st.records p.1 p.2) && (st.records p.1 p.2).key == key

/-- What the scan has found so far: the index, the slots to adopt and the records reset. -/
structure Scan where
  index : ℕ → Option (ℕ × ℕ)
  adopted : List (ℕ × ℕ × ExpertKey)
  reset : List (ℕ × ℕ)

def scanRecord (idents : List FileIdentity) (numLayers numExperts : ℕ) (st : Store β size)
    (s : Scan) (p : ℕ × ℕ) : Scan :=
  let r := st.records p.1 p.2
  if r.state = .empty then s
  else if cc.verifies idents r ∧ r.layerIdx < numLayers ∧ r.expertIdx < numExperts ∧
      s.index (packedKey r.key) = none then
    { s with
      index := Function.update s.index (packedKey r.key) (some p)
      adopted := s.adopted ++ [(p.1, p.2, r.key)] }
  else { s with reset := s.reset ++ [p] }

/-- `scan_adoptable` over the given slots, in the order of the table. -/
def scanAdoptable (idents : List FileIdentity) (numLayers numExperts : ℕ) (st : Store β size)
    (slots : List (ℕ × ℕ)) : Scan :=
  slots.foldl (cc.scanRecord idents numLayers numExperts st) ⟨fun _ => none, [], []⟩

end CacheConfig

end LayerStorm.Memory
