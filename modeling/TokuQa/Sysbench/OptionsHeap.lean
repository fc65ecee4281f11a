import Mathlib
import TokuQa.Lib.Ring
import TokuQa.Sysbench.Options

/-!
# The memory of the option table

The functions of `sb_options.c` with their pointers: options and values are blocks from `malloc`,
linked into rings by the macros of `sb_list.h`, and their strings are blocks from `strdup`. A
block that is not there can be neither read nor written nor freed, so a run that ends has used
no stray pointer and has freed nothing twice. The table of `Options` is what the rings go
through (`calls_follow`).

Every allocation succeeds. Which block an allocation takes is open: `malloc` may go by how many
there were before and by what is in use.
-/

set_option autoImplicit false

namespace TokuQa.Sysbench.OptionsHeap

open TokuQa.Lib TokuQa.Lib.Ring TokuQa.Sysbench.ReadConfig TokuQa.Sysbench.Options

/-! ## Memory -/

/-- The `sb_list_item_t` there are: the global `options`, and in a block the `listitem` of an
option, its `values`, and the `listitem` of a value. -/
inductive Item where
  | table
  | option (block : Nat)
  | values (block : Nat)
  | value (block : Nat)
deriving DecidableEq

def Item.block : Item → Option Nat
  | .table => none
  | .option block | .values block | .value block => some block

/-- What is in a block, but for the items: a string, an `option_t` or a `value_t`. -/
inductive Block where
  | text (bytes : List UInt8)
  | option (type : SbArgType) (name : Ptr Nat)
  | value (data : Ptr Nat)

structure Heap where
  mallocs : Nat
  used : Finset Nat
  block : Nat → Option Block
  items : Mem Item

/-- Nothing allocated; the head is a global. -/
def Heap.empty : Heap where
  mallocs := 0
  used := ∅
  block := fun _ => none
  items := Function.update (fun _ => none) .table (some ⟨none, none⟩)

/-- Items zeroed by `memset`. -/
def zeroed (these : List Item) (items : Mem Item) : Mem Item := fun item =>
  if item ∈ these then some ⟨none, none⟩ else items item

def loadText (p : Ptr Nat) (h : Heap) : Option (List UInt8) := do
  match ← h.block (← p) with
  | .text bytes => some bytes
  | _ => none

def storeText (p : Ptr Nat) (bytes : List UInt8) (h : Heap) : Option Heap := do
  let a ← p
  match ← h.block a with
  | .text _ => some { h with block := Function.update h.block a (some (.text bytes)) }
  | _ => none

/-- `opt->name`. -/
def loadName (opt : Ptr Nat) (h : Heap) : Option (Ptr Nat) := do
  match ← h.block (← opt) with
  | .option _ name => some name
  | _ => none

def storeName (opt name : Ptr Nat) (h : Heap) : Option Heap := do
  let a ← opt
  match ← h.block a with
  | .option type _ => some { h with block := Function.update h.block a (some (.option type name)) }
  | _ => none

/-- `opt->type`. -/
def storeType (opt : Ptr Nat) (type : SbArgType) (h : Heap) : Option Heap := do
  let a ← opt
  match ← h.block a with
  | .option _ name => some { h with block := Function.update h.block a (some (.option type name)) }
  | _ => none

/-- `val->data`. -/
def loadData (val : Ptr Nat) (h : Heap) : Option (Ptr Nat) := do
  match ← h.block (← val) with
  | .value data => some data
  | _ => none

def storeData (val data : Ptr Nat) (h : Heap) : Option Heap := do
  let a ← val
  match ← h.block a with
  | .value _ => some { h with block := Function.update h.block a (some (.value data)) }
  | _ => none

/-- `SB_LIST_ENTRY(pos, option_t, listitem)`. -/
def optionEntry : Ptr Item → Option Nat
  | some (.option block) => some block
  | _ => none

/-- `SB_LIST_ENTRY(pos, value_t, listitem)`. -/
def valueEntry : Ptr Item → Option Nat
  | some (.value block) => some block
  | _ => none

/-- `free`. -/
def free (p : Ptr Nat) (h : Heap) : Option Heap :=
  match p with
  | none => some h
  | some a =>
    if a ∈ h.used then
      some { h with
        used := h.used.erase a
        block := Function.update h.block a none
        items := fun item => if item.block = some a then none else h.items item }
    else none

section

variable (malloc : Nat → Finset Nat → Nat)

def alloc (content : Block) (h : Heap) : Nat × Heap :=
  let a := malloc h.mallocs h.used
  (a, { h with
    mallocs := h.mallocs + 1
    used := insert a h.used
    block := Function.update h.block a (some content) })

def strdup (bytes : List UInt8) (h : Heap) : Nat × Heap := alloc malloc (.text bytes) h

/-! ## The functions -/

def newValue (h : Heap) : Nat × Heap :=
  let (a, h) := alloc malloc (.value none) h
  (a, { h with items := zeroed [.value a] h.items })

def newOption (h : Heap) : Option (Nat × Heap) := do
  let (a, h) := alloc malloc (.option .null none) h
  let items ← init (some (.values a)) (zeroed [.option a, .values a] h.items)
  return (a, { h with items })

/-- `add_value`; nothing looks at what it returns. -/
def addValue (values : Ptr Item) (data : Option (List UInt8)) (h : Heap) : Option Heap :=
  match values, data with
  | none, _ | _, none => some h
  | some values, some data => do
    let (newval, h) := newValue malloc h
    let (copy, h) := strdup malloc data h
    let h ← storeData (some newval) (some copy) h
    let items ← addTail (some (.value newval)) (some values) h.items
    return { h with items }

/-- The body of the loop in `free_values`. -/
def freeValue (cur : Ptr Item) (h : Heap) : Option Heap := do
  let val ← valueEntry cur
  let h ← free (← loadData (some val) h) h
  let items ← delete cur h.items
  free (some val) { h with items }

/-- `free_values`. The values of an option are in blocks of their own, so there are no more than
blocks in use. -/
def freeValues (values : Ptr Item) (h : Heap) : Option Heap :=
  match values with
  | none => some h
  | some values => forEachSafe Heap.items (some values) freeValue h.used.card h

/-- The body of the loop in `find_option`. -/
def matchOption (name : List UInt8) (h : Heap) (pos : Ptr Item) : Option (Option Nat) := do
  let opt ← optionEntry pos
  let optName ← loadText (← loadName (some opt) h) h
  return if sameName optName name then some opt else none

def findOption (options : Ptr Item) (name : Option (List UInt8)) (h : Heap) : Option (Ptr Nat) :=
  match options, name with
  | none, _ | _, none => some none
  | some options, some name =>
    forEach (some options) (matchOption name h) h.items h.used.card

def addOption (options : Ptr Item) (name : Option (List UInt8)) (h : Heap) :
    Option (Ptr Nat × Heap) :=
  match options, name with
  | none, _ | _, none => some (none, h)
  | some options, some name => do
    match ← findOption (some options) (some name) h with
    | some opt => return (some opt, h)
    | none =>
      let (opt, h) ← newOption malloc h
      let (copy, h) := strdup malloc name h
      let h ← storeName (some opt) (some copy) h
      let text ← loadName (some opt) h
      let h ← storeText text (convertDashes (← loadText text h)) h
      let items ← addTail (some (.option opt)) (some options) h.items
      return (some opt, { h with items })

/-- The loop over the tokens in `set_option`, with its copy of the value: `free` comes when
`tmp` is `NULL`. The bytes that `strtok` writes into the copy are not followed. -/
def addTokens (values : Ptr Item) (value : List UInt8) (h : Heap) : Option Heap := do
  let (_, h) := strdup malloc value h
  let h ← (tokens value.length value).foldlM (fun h tmp => addValue malloc values (some tmp) h) h
  free none h

def setOption (name value : Option CString) (type : SbArgType) (h : Heap) :
    Option ((Int × String) × Heap) := do
  let (opt, h) ← addOption malloc (some .table) (name.map CString.bytes) h
  match opt with
  | none => return ((1, ""), h)
  | some opt =>
    let h ← freeValues (some (.values opt)) h
    let h ← storeType (some opt) type h
    let value := value.map CString.bytes
    if type ≠ .flag ∧ (value = none ∨ value = some []) then return ((0, ""), h)
    match type with
    | .flag =>
      if value = none ∨ value = some on then
        return ((0, ""), ← addValue malloc (some (.values opt)) (some on) h)
      else return ((0, ""), h)
    | .int | .size | .float | .string =>
      return ((0, ""), ← addValue malloc (some (.values opt)) value h)
    | .list => return ((0, ""), ← addTokens malloc (some (.values opt)) (value.getD []) h)
    | .null => return ((1, "Unknown argument type: 0"), h)

def removeOption (options : Ptr Item) (optname : Option CString) (h : Heap) :
    Option ((Int × String) × Heap) := do
  match options, optname with
  | none, _ | _, none => return ((1, ""), h)
  | some options, some optname =>
    match ← findOption (some options) (some optname.bytes) h with
    | none => return ((1, ""), h)
    | some option =>
      let h ← freeValues (some (.values option)) h
      let h ← free (← loadName (some option) h) h
      let items ← delete (some (.option option)) h.items
      let h ← free (some option) { h with items }
      return ((0, ""), h)

def step (call : Call) (h : Heap) : Option ((Int × String) × Heap) :=
  match call with
  | .set name value type => setOption malloc name value type h
  | .remove optname => removeOption (some .table) optname h

/-- What calls answer, and the memory after them. -/
def run : List Call → Heap → Option (List (Int × String) × Heap)
  | [], h => some ([], h)
  | call :: calls, h => do
    let (answer, h) ← step malloc call h
    let (rest, h) ← run calls h
    return (answer :: rest, h)

/-- `sb_options_init`, and then the calls. -/
def start (calls : List Call) : Option (List (Int × String) × Heap) := do
  let items ← init (some .table) Heap.empty.items
  run malloc calls { Heap.empty with items }

end

/-! ## What the memory holds -/

/-- Where a value is. -/
structure ValueAt where
  block : Nat
  dataBlock : Nat
  data : List UInt8

/-- Where an option is, and what it is. -/
structure OptionAt where
  block : Nat
  nameBlock : Nat
  name : List UInt8
  type : SbArgType
  values : List ValueAt

def ValueAt.blocks (v : ValueAt) : List Nat := [v.block, v.dataBlock]

def OptionAt.blocks (o : OptionAt) : List Nat :=
  o.block :: o.nameBlock :: o.values.flatMap ValueAt.blocks

/-- The option of the table. -/
def OptionAt.toOption (o : OptionAt) : SbOption where
  name := o.name
  values := o.values.map ValueAt.data
  type := o.type

structure ValueHolds (h : Heap) (v : ValueAt) : Prop where
  block : h.block v.block = some (.value (some v.dataBlock))
  data : h.block v.dataBlock = some (.text v.data)

structure OptionHolds (h : Heap) (o : OptionAt) : Prop where
  block : h.block o.block = some (.option o.type (some o.nameBlock))
  name : h.block o.nameBlock = some (.text o.name)
  values : ∀ v ∈ o.values, ValueHolds h v
  ring : Through h.items (.values o.block) (o.values.map fun v => .value v.block)

/-- The blocks in use are these, all different. -/
structure Uses (h : Heap) (blocks : List Nat) : Prop where
  used : h.used = blocks.toFinset
  nodup : blocks.Nodup

/-- The table is these options; `others` are blocks it knows nothing of. -/
structure Holds (h : Heap) (options : List OptionAt) (others : List Nat) : Prop where
  ring : Through h.items .table (options.map fun o => .option o.block)
  each : ∀ o ∈ options, OptionHolds h o
  uses : Uses h (options.flatMap OptionAt.blocks ++ others)

/-- One option, and blocks that are none of its. -/
structure Among (others : List Nat) (h : Heap) (o : OptionAt) : Prop where
  holds : OptionHolds h o
  uses : Uses h (o.blocks ++ others)

/-- What a function that works on the values of an option leaves alone. -/
structure Keeps (others : List Nat) (o : OptionAt) (h h' : Heap) : Prop where
  block : ∀ a ∈ others, h'.block a = h.block a
  item : ∀ i : Item, i = .option o.block ∨ (∀ a, i.block = some a → a ∈ others) →
    h'.items i = h.items i

variable {h h' h'' : Heap} {o : OptionAt} {options : List OptionAt} {others : List Nat}
variable {malloc : Nat → Finset Nat → Nat}

theorem Keeps.trans (h₁ : Keeps others o h h') (h₂ : Keeps others o h' h'') :
    Keeps others o h h'' where
  block a ha := (h₂.block a ha).trans (h₁.block a ha)
  item i hi := (h₂.item i hi).trans (h₁.item i hi)

theorem mem_blocks {v : ValueAt} {a : Nat} (hv : v ∈ o.values) (ha : a ∈ v.blocks) :
    a ∈ o.blocks := by
  simp only [OptionAt.blocks, List.mem_cons, List.mem_flatMap]
  exact Or.inr (Or.inr ⟨v, hv, ha⟩)

/-- An option is in its own blocks. -/
theorem OptionHolds.congr (ho : OptionHolds h o)
    (hblock : ∀ a ∈ o.blocks, h'.block a = h.block a)
    (hitem : ∀ a ∈ o.blocks, h'.items (.values a) = h.items (.values a) ∧
      h'.items (.value a) = h.items (.value a)) : OptionHolds h' o where
  block := by
    rw [hblock _ (by simp [OptionAt.blocks])]
    exact ho.block
  name := by
    rw [hblock _ (by simp [OptionAt.blocks])]
    exact ho.name
  values v hv := by
    refine ⟨?_, ?_⟩
    · rw [hblock _ (mem_blocks hv (by simp [ValueAt.blocks]))]
      exact (ho.values v hv).block
    · rw [hblock _ (mem_blocks hv (by simp [ValueAt.blocks]))]
      exact (ho.values v hv).data
  ring := by
    refine ho.ring.congr fun item hmem => ?_
    rw [List.mem_cons, List.mem_map] at hmem
    obtain rfl | ⟨v, hv, rfl⟩ := hmem
    · exact (hitem _ (by simp [OptionAt.blocks])).1
    · exact (hitem _ (mem_blocks hv (by simp [ValueAt.blocks]))).2

section

variable {blocks blocks' : List Nat} {a : Nat}

theorem Uses.notMem (huses : Uses h blocks) (ha : a ∉ h.used) : a ∉ blocks := by
  rwa [huses.used, List.mem_toFinset] at ha

theorem Uses.perm (huses : Uses h blocks) (hperm : blocks'.Perm blocks) : Uses h blocks' where
  used := huses.used.trans (List.toFinset_eq_of_perm _ _ hperm.symm)
  nodup := hperm.nodup_iff.mpr huses.nodup

theorem Uses.insert (huses : Uses h blocks) (ha : a ∉ h.used) (hused : h'.used = insert a h.used) :
    Uses h' (a :: blocks) where
  used := by
    rw [hused, huses.used, List.toFinset_cons]
  nodup := List.nodup_cons.mpr ⟨huses.notMem ha, huses.nodup⟩

theorem Uses.erase (huses : Uses h (a :: blocks)) (hused : h'.used = h.used.erase a) :
    Uses h' blocks where
  used := by
    have hnotin : a ∉ blocks.toFinset := by
      rw [List.mem_toFinset]
      exact (List.nodup_cons.mp huses.nodup).1
    rw [hused, huses.used, List.toFinset_cons, Finset.erase_insert hnotin]
  nodup := (List.nodup_cons.mp huses.nodup).2

end

theorem blocks_append (o : OptionAt) (v : ValueAt) (others : List Nat) :
    (({ o with values := o.values ++ [v] } : OptionAt).blocks ++ others).Perm
      (v.dataBlock :: v.block :: (o.blocks ++ others)) := by
  rw [List.perm_iff_count]
  intro c
  simp [OptionAt.blocks, ValueAt.blocks, List.count_cons]
  omega

/-- The items of the values of an option: its head and the values. -/
def OptionAt.ring (o : OptionAt) : List Item :=
  .values o.block :: o.values.map fun v => .value v.block

/-- They are in the blocks of the option. -/
theorem block_of_mem_ring {i : Item} (hi : i ∈ o.ring) :
    i ≠ .option o.block ∧ ∃ a ∈ o.blocks, i.block = some a := by
  rw [OptionAt.ring, List.mem_cons, List.mem_map] at hi
  obtain rfl | ⟨v, hv, rfl⟩ := hi
  · exact ⟨by simp, o.block, by simp [OptionAt.blocks], rfl⟩
  · exact ⟨by simp, v.block, mem_blocks hv (by simp [ValueAt.blocks]), rfl⟩

theorem notMem_ring {i : Item} (hnodup : (o.blocks ++ others).Nodup)
    (hi : i = .option o.block ∨ ∀ a, i.block = some a → a ∈ others) : i ∉ o.ring := by
  intro hmem
  obtain ⟨hne, a, ha, hblock⟩ := block_of_mem_ring hmem
  obtain hi | hi := hi
  · exact hne hi
  · exact (List.nodup_append.mp hnodup).2.2 a ha a (hi a hblock) rfl

/-! ## The values of an option -/

section

variable (hmalloc : ∀ n used, malloc n used ∉ used)
include hmalloc

/-- **A value is added** as the last one, in two new blocks. -/
theorem addValue_spec (ho : Among others h o) (data : List UInt8) :
    ∃ h' v, addValue malloc (some (.values o.block)) (some data) h = some h' ∧ v.data = data ∧
      Among others h' { o with values := o.values ++ [v] } ∧ Keeps others o h h' := by
  obtain ⟨a, ha⟩ : ∃ a, malloc h.mallocs h.used = a := ⟨_, rfl⟩
  obtain ⟨b, hb⟩ : ∃ b, malloc (h.mallocs + 1) (insert a h.used) = b := ⟨_, rfl⟩
  have hanew : a ∉ o.blocks ++ others := ho.uses.notMem (ha ▸ hmalloc _ _)
  have hbnew : b ∉ insert a h.used := hb ▸ hmalloc _ _
  rw [Finset.mem_insert, not_or] at hbnew
  have hbnew' : b ∉ o.blocks ++ others := ho.uses.notMem hbnew.2
  have hba := hbnew.1
  rw [List.mem_append, not_or] at hanew hbnew'
  have hnew : Item.value a ∉ o.ring := by
    intro hmem
    obtain ⟨-, c, hc, hblock⟩ := block_of_mem_ring hmem
    exact hanew.1 (Option.some.inj hblock ▸ hc)
  have hring : Through (zeroed [.value a] h.items) (.values o.block)
      (o.values.map fun v => .value v.block) := by
    refine ho.holds.ring.congr fun item hitem => ?_
    have hne : item ≠ .value a := by
      rintro rfl
      exact hnew hitem
    simp [zeroed, hne]
  obtain ⟨items, hrun, hthrough, -, hframe⟩ := addTail_through hring (by simp [zeroed]) hnew
  set h' : Heap := {
    mallocs := h.mallocs + 1 + 1
    used := insert b (insert a h.used)
    block := Function.update (Function.update (Function.update h.block a (some (.value none))) b
      (some (.text data))) a (some (.value (some b)))
    items } with hh'
  have hblock : ∀ c, c ∈ o.blocks ++ others → h'.block c = h.block c := by
    intro c hc
    have hca : c ≠ a := by
      rintro rfl
      exact (List.mem_append.mp hc).elim hanew.1 hanew.2
    have hcb : c ≠ b := by
      rintro rfl
      exact (List.mem_append.mp hc).elim hbnew'.1 hbnew'.2
    simp [hh', Function.update_of_ne hca, Function.update_of_ne hcb]
  refine ⟨h', ⟨a, b, data⟩, ?_, rfl, ⟨⟨?_, ?_, ?_, ?_⟩, ?_⟩, ⟨?_, ?_⟩⟩
  · simp only [addValue, newValue, strdup, alloc, ha, hb, storeData, Option.bind_eq_bind,
      Option.bind_some, Function.update_of_ne (Ne.symm hba), Function.update_self, hrun]
    rfl
  · rw [hblock _ (by simp [OptionAt.blocks])]
    exact ho.holds.block
  · rw [hblock _ (by simp [OptionAt.blocks])]
    exact ho.holds.name
  · intro v hv
    obtain hv | hv := List.mem_append.mp hv
    · refine ⟨?_, ?_⟩
      · rw [hblock _ (List.mem_append_left _ (mem_blocks hv (by simp [ValueAt.blocks])))]
        exact (ho.holds.values v hv).block
      · rw [hblock _ (List.mem_append_left _ (mem_blocks hv (by simp [ValueAt.blocks])))]
        exact (ho.holds.values v hv).data
    · rw [List.mem_singleton.mp hv]
      exact ⟨by simp [hh'], by simp [hh', Function.update_of_ne hba]⟩
  · simpa using hthrough
  · have hone : Uses { h with used := insert a h.used } (a :: (o.blocks ++ others)) :=
      ho.uses.insert (ha ▸ hmalloc _ _) rfl
    have htwo : Uses h' (b :: a :: (o.blocks ++ others)) := hone.insert (hb ▸ hmalloc _ _) rfl
    exact htwo.perm (blocks_append o ⟨a, b, data⟩ others)
  · exact fun c hc => hblock c (List.mem_append_right _ hc)
  · intro i hi
    have hia : i ≠ .value a := by
      rintro rfl
      obtain hi | hi := hi
      · cases hi
      · exact hanew.2 (hi a rfl)
    refine (hframe i hia (notMem_ring ho.uses.nodup hi)).trans ?_
    simp [zeroed, hia]

end

theorem blocks_cons (o : OptionAt) (v : ValueAt) (rest : List ValueAt) (others : List Nat) :
    (v.dataBlock :: v.block :: (({ o with values := rest } : OptionAt).blocks ++ others)).Perm
      (({ o with values := v :: rest } : OptionAt).blocks ++ others) := by
  rw [List.perm_iff_count]
  intro c
  simp [OptionAt.blocks, ValueAt.blocks, List.count_cons]
  omega

/-- `free` of a block that is in use. -/
theorem free_some {a : Nat} (ha : a ∈ h.used) : free (some a) h = some { h with
    used := h.used.erase a
    block := Function.update h.block a none
    items := fun item => if item.block = some a then none else h.items item } :=
  if_pos ha

/-- **A turn of `free_values`** takes the first value out and gives its two blocks back. -/
theorem freeValue_spec {v : ValueAt} {rest : List ValueAt}
    (ho : Among others h { o with values := v :: rest }) :
    ∃ h', freeValue (some (.value v.block)) h = some h' ∧
      Among others h' { o with values := rest } ∧ Keeps others o h h' := by
  have huses : Uses h (v.dataBlock :: v.block :: (({ o with values := rest } : OptionAt).blocks ++
    others)) := ho.uses.perm (blocks_cons o v rest others)
  have hnodup := huses.nodup
  rw [List.nodup_cons, List.nodup_cons, List.mem_cons, not_or] at hnodup
  obtain ⟨⟨hne, hdata⟩, hblock, -⟩ := hnodup
  set o' : OptionAt := { o with values := rest } with ho'
  have hapart : ∀ c ∈ o'.blocks ++ others, c ≠ v.dataBlock ∧ c ≠ v.block := by
    refine fun c hc => ⟨?_, ?_⟩
    · rintro rfl
      exact hdata hc
    · rintro rfl
      exact hblock hc
  have hitem : ∀ i : Item, i = .option o.block ∨ (∀ a, i.block = some a → a ∈ o'.blocks ++ others) →
      i.block ≠ some v.dataBlock ∧ i.block ≠ some v.block := by
    refine fun i hi => ⟨fun heq => ?_, fun heq => ?_⟩
    · obtain rfl | hi := hi
      · exact (hapart o.block (by simp [ho', OptionAt.blocks])).1 (Option.some.inj heq)
      · exact hdata (hi _ heq)
    · obtain rfl | hi := hi
      · exact (hapart o.block (by simp [ho', OptionAt.blocks])).2 (Option.some.inj heq)
      · exact hblock (hi _ heq)
  have hring : ∀ i ∈ o'.ring, i.block ≠ some v.dataBlock ∧ i.block ≠ some v.block := by
    intro i hi
    obtain ⟨-, c, hc, hib⟩ := block_of_mem_ring hi
    refine hitem i (Or.inr fun a ha => ?_)
    rw [Option.some.inj (ha.symm.trans hib)]
    exact List.mem_append_left _ hc
  have hvalue : ValueHolds h v := ho.holds.values v (by simp)
  have hdataused : v.dataBlock ∈ h.used := by
    rw [huses.used]
    simp
  have hblockused : v.block ∈ h.used.erase v.dataBlock := by
    rw [huses.used]
    simp [Ne.symm hne]
  have hthrough : Through (fun i : Item => if i.block = some v.dataBlock then none else h.items i)
      (.values o.block) (.value v.block :: rest.map fun v => .value v.block) := by
    refine ho.holds.ring.congr fun i hi => if_neg ?_
    rw [List.mem_cons, List.map_cons, List.mem_cons, or_left_comm] at hi
    obtain rfl | hi := hi
    · exact fun heq => hne (Option.some.inj heq).symm
    · exact (hring i (List.mem_cons.mpr hi)).1
  obtain ⟨items, hrun, hafter, -, hframe⟩ := delete_through [] hthrough
  have hnotin : ∀ i : Item, i = .option o.block ∨ (∀ a, i.block = some a → a ∈ others) →
      i ∉ Item.values o.block :: ([] ++ Item.value v.block :: rest.map fun v => .value v.block) :=
    fun i hi => notMem_ring ho.uses.nodup hi
  have hothers : ∀ i : Item, i = .option o.block ∨ (∀ a, i.block = some a → a ∈ others) →
      i.block ≠ some v.dataBlock ∧ i.block ≠ some v.block :=
    fun i hi => hitem i (hi.imp_right fun hi a ha => List.mem_append_right _ (hi a ha))
  set h' : Heap := {
    mallocs := h.mallocs
    used := (h.used.erase v.dataBlock).erase v.block
    block := Function.update (Function.update h.block v.dataBlock none) v.block none
    items := fun i => if i.block = some v.block then none else items i } with hh'
  have hkept : ∀ c ∈ o'.blocks ++ others, h'.block c = h.block c := by
    intro c hc
    simp [hh', Function.update_of_ne (hapart c hc).1, Function.update_of_ne (hapart c hc).2]
  have hvalues : ∀ w ∈ rest, ValueHolds h' w := by
    intro w hw
    have hmem : ∀ c ∈ w.blocks, c ∈ o'.blocks ++ others := fun c hc =>
      List.mem_append_left _ (mem_blocks (o := o') hw hc)
    have hw' : ValueHolds h w := ho.holds.values w (List.mem_cons_of_mem _ hw)
    refine ⟨?_, ?_⟩
    · rw [hkept _ (hmem _ (by simp [ValueAt.blocks]))]
      exact hw'.block
    · rw [hkept _ (hmem _ (by simp [ValueAt.blocks]))]
      exact hw'.data
  refine ⟨h', ?_, ⟨⟨?_, ?_, hvalues, ?_⟩, ?_⟩, ⟨?_, ?_⟩⟩
  · simp only [freeValue, valueEntry, loadData, hvalue.block, Option.bind_eq_bind, Option.bind_some,
      free_some hdataused, hrun]
    exact free_some hblockused
  · rw [hkept _ (by simp [ho', OptionAt.blocks])]
    exact ho.holds.block
  · rw [hkept _ (by simp [ho', OptionAt.blocks])]
    exact ho.holds.name
  · exact hafter.congr fun i hi => if_neg (hring i hi).2
  · have hone : Uses { h with used := h.used.erase v.dataBlock }
        (v.block :: (o'.blocks ++ others)) := huses.erase rfl
    exact hone.erase rfl
  · exact fun c hc => hkept c (List.mem_append_right _ hc)
  · intro i hi
    have hout : h'.items i = items i := if_neg (hothers i hi).2
    rw [hout, hframe i (hnotin i hi), if_neg (hothers i hi).1]

theorem length_le_card {blocks l : List Nat} (huses : Uses h blocks) (hl : l.Nodup)
    (hsub : ∀ a ∈ l, a ∈ blocks) : l.length ≤ h.used.card := by
  rw [huses.used, ← List.toFinset_card_of_nodup hl]
  refine Finset.card_le_card fun a ha => ?_
  rw [List.mem_toFinset] at ha ⊢
  exact hsub a ha

/-- There are no more values than blocks in use. -/
theorem length_values_le (ho : Among others h o) :
    (o.values.map fun v => Item.value v.block).length ≤ h.used.card := by
  have hnodup := (List.nodup_cons.mp ho.holds.ring.nodup).2
  have hblocks : (o.values.map ValueAt.block).Nodup := by
    refine List.Nodup.of_map Item.value ?_
    rwa [List.map_map]
  rw [List.length_map, ← List.length_map (f := ValueAt.block)]
  refine length_le_card ho.uses hblocks fun a ha => ?_
  obtain ⟨v, hv, rfl⟩ := List.mem_map.mp ha
  exact List.mem_append_left _ (mem_blocks hv (by simp [ValueAt.blocks]))

/-- **`free_values`** leaves the option without values, and gives their blocks back. -/
theorem freeValues_spec (ho : Among others h o) :
    ∃ h', freeValues (some (.values o.block)) h = some h' ∧
      Among others h' { o with values := [] } ∧ Keeps others o h h' := by
  set Inv : Heap → List Item → Prop := fun s items =>
    ∃ rest, items = rest.map (fun v => Item.value v.block) ∧
      Among others s { o with values := rest } ∧ Keeps others o h s with hInv
  have hhead : ∀ s items, Inv s items → (loadNext (some (Item.values o.block)) s.items).isSome := by
    rintro s items ⟨rest, rfl, hs, -⟩
    rw [hs.holds.ring.loadNext_mem [] rfl]
    rfl
  have hnext : ∀ s i after, Inv s (i :: after) → i ≠ Item.values o.block ∧
      loadNext (some i) s.items = some (some ((after ++ [Item.values o.block]).head (by simp))) := by
    rintro s i after ⟨rest, hrest, hs, -⟩
    have hring : Through s.items (.values o.block) (i :: after) := by
      rw [hrest]
      exact hs.holds.ring
    refine ⟨?_, hring.loadNext_mem [.values o.block] rfl⟩
    rintro rfl
    exact (List.nodup_cons.mp hring.nodup).1 (by simp)
  have hbody : ∀ s i after, Inv s (i :: after) →
      ∃ s', freeValue (some i) s = some s' ∧ Inv s' after := by
    rintro s i after ⟨rest, hrest, hs, hkeeps⟩
    cases rest with
    | nil => simp at hrest
    | cons v rest =>
      rw [List.map_cons, List.cons.injEq] at hrest
      obtain ⟨rfl, rfl⟩ := hrest
      obtain ⟨s', hbody, hafter, hstep⟩ := freeValue_spec hs
      exact ⟨s', hbody, rest, rfl, hafter, hkeeps.trans ⟨hstep.block, hstep.item⟩⟩
  have hstart : Inv h (o.values.map fun v => .value v.block) :=
    ⟨o.values, rfl, ho, fun _ _ => rfl, fun _ _ => rfl⟩
  obtain ⟨h', hrun, rest, hnil, hafter, hkeeps⟩ := forEachSafe_run Inv hhead hnext hbody hstart
    (length_values_le ho) (ho.holds.ring.loadNext_mem [] rfl)
  rw [eq_comm, List.map_eq_nil_iff] at hnil
  subst hnil
  exact ⟨h', hrun, hafter, hkeeps⟩

/-! ## Setting an option that is there -/

theorem Among.perm {others' : List Nat} (ho : Among others h o) (hperm : others'.Perm others) :
    Among others' h o where
  holds := ho.holds
  uses := ho.uses.perm (hperm.append_left _)

theorem storeType_spec (ho : Among others h o) (type : SbArgType) :
    ∃ h', storeType (some o.block) type h = some h' ∧ Among others h' { o with type } ∧
      Keeps others o h h' := by
  set h' : Heap := { h with
    block := Function.update h.block o.block (some (.option type (some o.nameBlock))) } with hh'
  have hnodup := ho.uses.nodup
  rw [OptionAt.blocks, List.cons_append, List.nodup_cons] at hnodup
  have hkept : ∀ c ∈ o.nameBlock :: o.values.flatMap ValueAt.blocks ++ others,
      h'.block c = h.block c := by
    intro c hc
    refine Function.update_of_ne ?_ _ _
    rintro rfl
    exact hnodup.1 hc
  refine ⟨h', ?_, ⟨⟨Function.update_self .., ?_, fun v hv => ?_, ho.holds.ring⟩,
    ho.uses.used, ho.uses.nodup⟩, fun c hc => hkept c (List.mem_append_right _ hc), fun _ _ => rfl⟩
  · simp [storeType, ho.holds.block, hh']
  · rw [hkept _ (by simp)]
    exact ho.holds.name
  · have hmem : ∀ c ∈ v.blocks, c ∈ o.nameBlock :: o.values.flatMap ValueAt.blocks ++ others :=
      fun c hc => List.mem_append_left _
        (List.mem_cons_of_mem _ (List.mem_flatMap.mpr ⟨v, hv, hc⟩))
    refine ⟨?_, ?_⟩
    · rw [hkept _ (hmem _ (by simp [ValueAt.blocks]))]
      exact (ho.holds.values v hv).block
    · rw [hkept _ (hmem _ (by simp [ValueAt.blocks]))]
      exact (ho.holds.values v hv).data

section

variable (hmalloc : ∀ n used, malloc n used ∉ used)
include hmalloc

/-- `strdup` takes a block that is none of those in use. -/
theorem strdup_spec (ho : Among others h o) (bytes : List UInt8) :
    ∃ a h', strdup malloc bytes h = (a, h') ∧ Among (a :: others) h' o ∧ Keeps others o h h' := by
  have hused := hmalloc h.mallocs h.used
  have hkept : ∀ c ∈ o.blocks ++ others, (strdup malloc bytes h).2.block c = h.block c := by
    intro c hc
    refine Function.update_of_ne ?_ _ _
    rintro rfl
    exact ho.uses.notMem hused hc
  refine ⟨_, _, rfl, ⟨?_, ?_⟩, ?_, fun _ _ => rfl⟩
  · exact ho.holds.congr (fun c hc => hkept c (List.mem_append_left _ hc)) fun _ _ => ⟨rfl, rfl⟩
  · exact (ho.uses.insert hused rfl).perm List.perm_middle
  · exact fun c hc => hkept c (List.mem_append_right _ hc)

theorem addValues_spec (ho : Among others h o) (datas : List (List UInt8)) :
    ∃ h' values, datas.foldlM (fun h data => addValue malloc (some (.values o.block)) (some data) h)
        h = some h' ∧ values.map ValueAt.data = o.values.map ValueAt.data ++ datas ∧
      Among others h' { o with values } ∧ Keeps others o h h' := by
  induction datas generalizing h o with
  | nil => exact ⟨h, o.values, rfl, by simp, ho, fun _ _ => rfl, fun _ _ => rfl⟩
  | cons data datas ih =>
    obtain ⟨h₁, v, hrun, hdata, ho₁, hkeeps₁⟩ := addValue_spec hmalloc ho data
    obtain ⟨h₂, values, hrest, hvalues, ho₂, hkeeps₂⟩ := ih ho₁
    refine ⟨h₂, values, ?_, ?_, ho₂, hkeeps₁.trans ⟨hkeeps₂.block, hkeeps₂.item⟩⟩
    · rw [List.foldlM_cons, hrun]
      exact hrest
    · rw [hvalues]
      simp [hdata]

/-- A copy is taken for each list of a value that is not empty, and never given back. -/
def copies : Call → Nat
  | .set (some _) (some value) .list => if value.bytes = [] then 0 else 1
  | _ => 0

/-- What `set_option` does with the option it has found or made. -/
theorem setValues_spec {h₀ : Heap} (ho : Among others h o) (name : CString)
    (value : Option CString) (type : SbArgType)
    (hadd : addOption malloc (some .table) (some name.bytes) h₀ = some (some o.block, h)) :
    ∃ h' values copied,
      setOption malloc (some name) value type h₀ = some ((newValues type value).1, h') ∧
      values.map ValueAt.data = (newValues type value).2 ∧
      copied.length = copies (.set (some name) value type) ∧
      Among (copied ++ others) h' { o with type, values } ∧ Keeps others o h h' := by
  obtain ⟨h₁, hfree, ho₁, hkeeps₁⟩ := freeValues_spec ho
  obtain ⟨h₂, hstore, ho₂, hkeeps₂⟩ := storeType_spec ho₁ type
  have hkeeps : Keeps others o h h₂ := hkeeps₁.trans ⟨hkeeps₂.block, hkeeps₂.item⟩
  simp only [setOption, hadd, hfree, hstore, Option.bind_eq_bind, Option.bind_some, Option.map_some]
  by_cases hguard : type ≠ .flag ∧ (value.map CString.bytes = none ∨
    value.map CString.bytes = some [])
  · have hnone : newValues type value = ((0, ""), []) := if_pos hguard
    rw [if_pos hguard, hnone]
    refine ⟨h₂, [], [], rfl, rfl, ?_, ho₂, hkeeps⟩
    cases value with
    | none => cases type <;> rfl
    | some value =>
      have hempty : value.bytes = [] := by simpa using hguard.2
      cases type <;> simp [copies, hempty]
  · have hnew : newValues type value = _ := if_neg hguard
    rw [if_neg hguard, hnew]
    have hscalar : ∀ bytes, ∃ h', addValue malloc (some (.values o.block)) (some bytes) h₂ =
        some h' ∧ ∃ v : ValueAt, v.data = bytes ∧ Among others h' { o with type, values := [v] } ∧
          Keeps others o h h' := by
      intro bytes
      obtain ⟨h₃, v, hrun, hdata, ho₃, hkeeps₃⟩ := addValue_spec hmalloc ho₂ bytes
      exact ⟨h₃, hrun, v, hdata, ho₃, hkeeps.trans ⟨hkeeps₃.block, hkeeps₃.item⟩⟩
    have hcopies : type ≠ .list → copies (.set (some name) value type) = 0 := by
      intro hne
      cases type <;> simp_all [copies]
    cases type with
    | flag =>
      dsimp only
      split
      · obtain ⟨h₃, hrun, v, hdata, ho₃, hkeeps₃⟩ := hscalar on
        exact ⟨h₃, [v], [], by rw [hrun]; rfl, by simp [hdata], (hcopies (by simp)).symm, ho₃,
          hkeeps₃⟩
      · exact ⟨h₂, [], [], rfl, rfl, (hcopies (by simp)).symm, ho₂, hkeeps⟩
    | null => exact ⟨h₂, [], [], rfl, rfl, (hcopies (by simp)).symm, ho₂, hkeeps⟩
    | list =>
      cases value with
      | none => simp at hguard
      | some value =>
        have hne : value.bytes ≠ [] := by simpa using hguard
        obtain ⟨a, h₃, hcopy, ho₃, hkeeps₃⟩ := strdup_spec hmalloc ho₂ value.bytes
        obtain ⟨h₄, values, hrun, hvalues, ho₄, hkeeps₄⟩ :=
          addValues_spec hmalloc ho₃ (tokens value.bytes.length value.bytes)
        have hkept : Keeps others o h₃ h₄ :=
          ⟨fun c hc => hkeeps₄.block c (List.mem_cons_of_mem _ hc), fun i hi =>
            hkeeps₄.item i (hi.imp_right fun hi c hc => List.mem_cons_of_mem _ (hi c hc))⟩
        refine ⟨h₄, values, [a], ?_, ?_, ?_, ho₄, (hkeeps.trans ⟨hkeeps₃.block, hkeeps₃.item⟩).trans
          hkept⟩
        · simp only [addTokens, Option.map_some, Option.getD_some, hcopy]
          simp only [hrun, free, Option.bind_eq_bind, Option.bind_some]
          rfl
        · simpa using hvalues
        · simp [copies, hne]
    | _ =>
      cases value with
      | none => simp at hguard
      | some value =>
        obtain ⟨h₃, hrun, v, hdata, ho₃, hkeeps₃⟩ := hscalar value.bytes
        refine ⟨h₃, [v], [], ?_, by simp [hdata], (hcopies (by simp)).symm, ho₃, hkeeps₃⟩
        simp only [Option.map_some, hrun]
        rfl

end

/-! ## The table -/

theorem mem_table {p : OptionAt} {a : Nat} (hp : p ∈ options) (ha : a ∈ p.blocks) :
    a ∈ options.flatMap OptionAt.blocks ++ others :=
  List.mem_append_left _ (List.mem_flatMap.mpr ⟨p, hp, ha⟩)

/-- The blocks of a table with an option in the middle. -/
theorem blocks_middle (before after : List OptionAt) (o : OptionAt) (others : List Nat) :
    (o.blocks ++ ((before ++ after).flatMap OptionAt.blocks ++ others)).Perm
      ((before ++ o :: after).flatMap OptionAt.blocks ++ others) := by
  rw [List.perm_iff_count]
  intro c
  simp
  omega

theorem Holds.among {before after : List OptionAt} (hh : Holds h (before ++ o :: after) others) :
    Among ((before ++ after).flatMap OptionAt.blocks ++ others) h o where
  holds := hh.each o (by simp)
  uses := hh.uses.perm (blocks_middle before after o others)

/-- Work on the values of one option is work on the table. -/
theorem Holds.update {before after : List OptionAt} {o' : OptionAt} {copied : List Nat}
    (hh : Holds h (before ++ o :: after) others)
    (ho : Among (copied ++ ((before ++ after).flatMap OptionAt.blocks ++ others)) h' o')
    (hkeeps : Keeps ((before ++ after).flatMap OptionAt.blocks ++ others) o h h')
    (hblock : o'.block = o.block) :
    Holds h' (before ++ o' :: after) (copied ++ others) where
  ring := by
    have hsame : (before ++ o' :: after).map (fun o => Item.option o.block) =
        (before ++ o :: after).map fun o => Item.option o.block := by
      simp [hblock]
    rw [hsame]
    refine hh.ring.congr fun i hi => hkeeps.item i ?_
    rw [List.mem_cons, List.mem_map] at hi
    obtain rfl | ⟨p, hp, rfl⟩ := hi
    · exact Or.inr fun a ha => absurd ha (by simp [Item.block])
    · by_cases hpo : p = o
      · exact Or.inl (by rw [hpo])
      · have hmem : p ∈ before ++ after := by
          simpa [hpo] using hp
        refine Or.inr fun a ha => mem_table hmem ?_
        rw [← Option.some.inj ha]
        simp [OptionAt.blocks]
  each p hp := by
    by_cases hpo : p = o'
    · rw [hpo]
      exact ho.holds
    · have hmem : p ∈ before ++ after := by
        simpa [hpo] using hp
      have hold : p ∈ before ++ o :: after := by
        rw [List.mem_append, List.mem_cons]
        rw [List.mem_append] at hmem
        tauto
      refine (hh.each p hold).congr (fun a ha => hkeeps.block a (mem_table hmem ha))
        fun a ha => ⟨?_, ?_⟩
      · exact hkeeps.item _ (Or.inr fun b hb => Option.some.inj hb ▸ mem_table hmem ha)
      · exact hkeeps.item _ (Or.inr fun b hb => Option.some.inj hb ▸ mem_table hmem ha)
  uses := by
    refine ho.uses.perm ?_
    rw [List.perm_iff_count]
    intro c
    simp
    omega

theorem length_options_le (hh : Holds h options others) :
    (options.map fun o => Item.option o.block).length ≤ h.used.card := by
  have hnodup := (List.nodup_cons.mp hh.ring.nodup).2
  have hblocks : (options.map OptionAt.block).Nodup := by
    refine List.Nodup.of_map Item.option ?_
    rwa [List.map_map]
  rw [List.length_map, ← List.length_map (f := OptionAt.block)]
  refine length_le_card hh.uses hblocks fun a ha => ?_
  obtain ⟨o, ho, rfl⟩ := List.mem_map.mp ha
  exact mem_table ho (by simp [OptionAt.blocks])

/-- **`find_option`** finds the first option that matches. -/
theorem findOption_spec (hh : Holds h options others) (name : List UInt8) :
    findOption (some .table) (some name) h =
      some ((options.find? fun o => sameName o.name name).map OptionAt.block) := by
  have hlist : ∀ l : List OptionAt, (∀ o ∈ l, OptionHolds h o) →
      ((l.map fun o => Item.option o.block).findSomeM? fun i => matchOption name h (some i)) =
        some ((l.find? fun o => sameName o.name name).map OptionAt.block) := by
    intro l hl
    induction l with
    | nil => rfl
    | cons o l ih =>
      have ho := hl o (by simp)
      have hbody : matchOption name h (some (.option o.block)) =
          some (if sameName o.name name then some o.block else none) := by
        simp [matchOption, optionEntry, loadName, loadText, ho.block, ho.name]
      rw [List.map_cons, List.findSomeM?_cons, hbody, List.find?_cons]
      cases sameName o.name name with
      | true => rfl
      | false => exact ih fun p hp => hl p (List.mem_cons_of_mem _ hp)
  rw [findOption, hh.ring.forEach_eq (length_options_le hh)]
  exact hlist options hh.each

section

variable (hmalloc : ∀ n used, malloc n used ∉ used)
include hmalloc

/-- **`add_option`** of a name that is not there puts an option without values at the end. -/
theorem addOption_new (hh : Holds h options others) {name : List UInt8}
    (hnone : (options.find? fun o => sameName o.name name) = none) :
    ∃ h' o, addOption malloc (some .table) (some name) h = some (some o.block, h') ∧
      Holds h' (options ++ [o]) others ∧
      o.toOption = { name := convertDashes name, values := [], type := .null } := by
  obtain ⟨a, ha⟩ : ∃ a, malloc h.mallocs h.used = a := ⟨_, rfl⟩
  obtain ⟨b, hb⟩ : ∃ b, malloc (h.mallocs + 1) (insert a h.used) = b := ⟨_, rfl⟩
  have hanew : a ∉ options.flatMap OptionAt.blocks ++ others := hh.uses.notMem (ha ▸ hmalloc _ _)
  have hbnew : b ∉ insert a h.used := hb ▸ hmalloc _ _
  rw [Finset.mem_insert, not_or] at hbnew
  obtain ⟨hba, hbused⟩ := hbnew
  have hbnew := hh.uses.notMem hbused
  have hzeroed : (zeroed [.option a, .values a] h.items (.values a)).isSome := by simp [zeroed]
  obtain ⟨items, hinit, hvalues, hsome, hinitframe⟩ := init_through hzeroed
  have hitems : ∀ i : Item, i.block ≠ some a → items i = h.items i := by
    intro i hi
    have hoption : i ≠ .option a := by
      rintro rfl
      exact hi rfl
    have hvalues : i ≠ .values a := by
      rintro rfl
      exact hi rfl
    rw [hinitframe i hvalues]
    simp [zeroed, hoption, hvalues]
  have hblocks : ∀ o ∈ options, ∀ c ∈ o.blocks, c ≠ a ∧ c ≠ b := by
    refine fun o ho c hc => ⟨?_, ?_⟩
    · rintro rfl
      exact hanew (mem_table ho hc)
    · rintro rfl
      exact hbnew (mem_table ho hc)
  have hring : Through items .table (options.map fun o => .option o.block) := by
    refine hh.ring.congr fun i hi => hitems i ?_
    rw [List.mem_cons, List.mem_map] at hi
    obtain rfl | ⟨o, ho, rfl⟩ := hi
    · simp [Item.block]
    · exact fun heq => (hblocks o ho o.block (by simp [OptionAt.blocks])).1 (Option.some.inj heq)
  have hnotin : Item.option a ∉ Item.table :: options.map fun o => Item.option o.block := by
    simp only [List.mem_cons, List.mem_map, reduceCtorEq, Item.option.injEq, false_or, not_exists,
      not_and]
    exact fun o ho => (hblocks o ho o.block (by simp [OptionAt.blocks])).1
  obtain ⟨items', hrun, htable, -, hframe⟩ := addTail_through hring (x := .option a)
    (by rw [hsome]; simp [zeroed]) hnotin
  have hother : ∀ c, items' (.values c) = items (.values c) ∧
      items' (.value c) = items (.value c) := by
    refine fun c => ⟨hframe _ (by simp) (by simp), hframe _ (by simp) (by simp)⟩
  set o : OptionAt := ⟨a, b, convertDashes name, .null, []⟩ with ho
  set h' : Heap := {
    mallocs := h.mallocs + 1 + 1
    used := insert b (insert a h.used)
    block := Function.update (Function.update (Function.update (Function.update h.block a
      (some (.option .null none))) b (some (.text name))) a (some (.option .null (some b)))) b
      (some (.text (convertDashes name)))
    items := items' } with hh'
  refine ⟨h', o, ?_, ⟨?_, ?_, ?_⟩, rfl⟩
  · simp only [addOption, findOption_spec hh, hnone, Option.map_none, Option.bind_eq_bind,
      Option.bind_some, Option.pure_def, newOption, alloc, ha, hinit, strdup, hb, storeName,
      loadName, loadText, storeText, Function.update_self, Function.update_of_ne (Ne.symm hba),
      Function.update_of_ne hba]
    simp only [hrun, Option.bind_some]
    rfl
  · simpa using htable
  · intro p hp
    obtain hp | hp := List.mem_append.mp hp
    · refine (hh.each p hp).congr (fun c hc => ?_) fun c hc => ?_
      · obtain ⟨hca, hcb⟩ := hblocks p hp c hc
        simp [hh', Function.update_of_ne hca, Function.update_of_ne hcb]
      · have hca := (hblocks p hp c hc).1
        refine ⟨(hother c).1.trans (hitems _ ?_), (hother c).2.trans (hitems _ ?_)⟩
        · exact fun heq => hca (Option.some.inj heq)
        · exact fun heq => hca (Option.some.inj heq)
    · rw [List.mem_singleton.mp hp]
      refine ⟨?_, by simp [hh', ho], by simp [ho], ?_⟩
      · simp [hh', ho, Function.update_of_ne (Ne.symm hba)]
      · refine hvalues.congr fun i hi => ?_
        rw [List.mem_singleton.mp hi]
        exact (hother a).1
  · have hone : Uses { h with used := insert a h.used }
        (a :: (options.flatMap OptionAt.blocks ++ others)) := hh.uses.insert (ha ▸ hmalloc _ _) rfl
    have htwo : Uses h' (b :: a :: (options.flatMap OptionAt.blocks ++ others)) :=
      hone.insert (hb ▸ hmalloc _ _) rfl
    refine htwo.perm ?_
    rw [List.perm_iff_count]
    intro c
    simp [ho, OptionAt.blocks, List.count_cons]
    omega

end

/-- **`remove_option`** of an option that is there gives all of its blocks back. -/
theorem removeOption_found {before after : List OptionAt}
    (hh : Holds h (before ++ o :: after) others) {name : CString}
    (hfind : findOption (some .table) (some name.bytes) h = some (some o.block)) :
    ∃ h', removeOption (some .table) (some name) h = some ((0, ""), h') ∧
      Holds h' (before ++ after) others := by
  obtain ⟨h₁, hfree, ho₁, hkeeps₁⟩ := freeValues_spec hh.among
  have hh₁ : Holds h₁ (before ++ { o with values := [] } :: after) ([] ++ others) :=
    hh.update ho₁ hkeeps₁ rfl
  rw [List.nil_append] at hh₁
  set rest := (before ++ after).flatMap OptionAt.blocks ++ others with hrest
  have huses : Uses h₁ (o.nameBlock :: o.block :: rest) := ho₁.uses.perm (List.Perm.swap ..)
  have hnodup := huses.nodup
  rw [List.nodup_cons, List.nodup_cons, List.mem_cons, not_or] at hnodup
  obtain ⟨⟨hne, hname⟩, hblock, -⟩ := hnodup
  have hapart : ∀ c ∈ rest, c ≠ o.nameBlock ∧ c ≠ o.block := by
    refine fun c hc => ⟨?_, ?_⟩
    · rintro rfl
      exact hname hc
    · rintro rfl
      exact hblock hc
  have hnameused : o.nameBlock ∈ h₁.used := by
    rw [huses.used]
    simp
  have hblockused : o.block ∈ h₁.used.erase o.nameBlock := by
    rw [huses.used]
    simp [Ne.symm hne]
  have hoption : ∀ p ∈ before ++ after, p.block ∈ rest := fun p hp =>
    mem_table hp (by simp [OptionAt.blocks])
  have hthrough : Through
      (fun i : Item => if i.block = some o.nameBlock then none else h₁.items i) .table
      ((before.map fun o => Item.option o.block) ++
        Item.option o.block :: after.map fun o => Item.option o.block) := by
    have hring := hh₁.ring
    rw [List.map_append, List.map_cons] at hring
    refine hring.congr fun i hi => if_neg ?_
    rw [List.mem_cons, List.mem_append, List.mem_cons] at hi
    obtain rfl | hi | rfl | hi := hi
    · simp [Item.block]
    · obtain ⟨p, hp, rfl⟩ := List.mem_map.mp hi
      exact fun heq => (hapart _ (hoption p (by simp [hp]))).1 (Option.some.inj heq)
    · exact fun heq => hne (Option.some.inj heq).symm
    · obtain ⟨p, hp, rfl⟩ := List.mem_map.mp hi
      exact fun heq => (hapart _ (hoption p (by simp [hp]))).1 (Option.some.inj heq)
  obtain ⟨items, hrun, hafter, -, hframe⟩ := delete_through _ hthrough
  set h' : Heap := {
    mallocs := h₁.mallocs
    used := (h₁.used.erase o.nameBlock).erase o.block
    block := Function.update (Function.update h₁.block o.nameBlock none) o.block none
    items := fun i => if i.block = some o.block then none else items i } with hh'
  have hitem : ∀ i : Item, (∀ c, i ≠ .option c) → i ≠ .table → ∀ c ∈ rest, i.block = some c →
      h'.items i = h₁.items i := by
    intro i hi htable c hc hib
    have hout : h'.items i = items i := if_neg fun heq =>
      (hapart c hc).2 (Option.some.inj (hib.symm.trans heq))
    rw [hout, hframe i ?_, if_neg fun heq => (hapart c hc).1 (Option.some.inj (hib.symm.trans heq))]
    simp only [List.mem_cons, List.mem_append, List.mem_map, not_or, not_exists, not_and]
    exact ⟨htable, fun p _ heq => hi _ heq.symm, hi _, fun p _ heq => hi _ heq.symm⟩
  refine ⟨h', ?_, ⟨?_, ?_, ?_⟩⟩
  · simp only [removeOption, hfind, hfree, loadName, ho₁.holds.block, free_some hnameused, hrun,
      Option.bind_eq_bind, Option.bind_some, Option.pure_def]
    rw [free_some hblockused]
    rfl
  · rw [List.map_append]
    refine hafter.congr fun i hi => if_neg ?_
    rw [List.mem_cons, ← List.map_append, List.mem_map] at hi
    obtain rfl | ⟨p, hp, rfl⟩ := hi
    · simp [Item.block]
    · exact fun heq => (hapart _ (hoption p hp)).2 (Option.some.inj heq)
  · intro p hp
    have hold : p ∈ before ++ { o with values := [] } :: after := by
      rw [List.mem_append, List.mem_cons]
      rw [List.mem_append] at hp
      tauto
    refine (hh₁.each p hold).congr (fun c hc => ?_) fun c hc => ?_
    · obtain ⟨hca, hcb⟩ := hapart c (mem_table hp hc)
      simp [hh', Function.update_of_ne hca, Function.update_of_ne hcb]
    · exact ⟨hitem _ (by simp) (by simp) c (mem_table hp hc) rfl,
        hitem _ (by simp) (by simp) c (mem_table hp hc) rfl⟩
  · have hone : Uses { h₁ with used := h₁.used.erase o.nameBlock } (o.block :: rest) :=
      huses.erase rfl
    exact hone.erase rfl

/-! ## The calls -/

section

variable {before : List SbOption} {opt : SbOption} {name : CString}
variable (value : Option CString) (type : SbArgType) (after : List SbOption)

theorem table_set_new (l : List SbOption) (hnone : ∀ opt ∈ l, sameName opt.name name.bytes = false) :
    Options.setOption (some name) value type l = ((newValues type value).1, l ++
      [{ name := convertDashes name.bytes, values := (newValues type value).2, type }]) := by
  have hfind : (l.findIdx? fun opt => sameName opt.name name.bytes) = none :=
    List.findIdx?_eq_none_iff.mpr hnone
  simp only [Options.setOption, Options.addOption, hfind]
  rw [List.modify_eq_take_cons_drop (by simp)]
  simp

theorem table_set_found (hbefore : ∀ opt ∈ before, sameName opt.name name.bytes = false)
    (hopt : sameName opt.name name.bytes = true) :
    Options.setOption (some name) value type (before ++ opt :: after) =
      ((newValues type value).1,
        before ++ { opt with type, values := (newValues type value).2 } :: after) := by
  have hfind : ((before ++ opt :: after).findIdx? fun opt => sameName opt.name name.bytes) =
      some before.length := by
    rw [List.findIdx?_append, List.findIdx?_eq_none_iff.mpr hbefore, List.findIdx?_cons, hopt]
    simp
  simp only [Options.setOption, Options.addOption, hfind]
  rw [List.modify_eq_take_cons_drop (by simp)]
  simp

omit value type in
theorem table_remove_found (hbefore : ∀ opt ∈ before, sameName opt.name name.bytes = false)
    (hopt : sameName opt.name name.bytes = true) :
    Options.removeOption (some name) (before ++ opt :: after) = ((0, ""), before ++ after) := by
  have hfind : Options.findOption (before ++ opt :: after) name.bytes = some opt :=
    List.find?_eq_some_iff_append.mpr ⟨hopt, before, after, rfl, by simpa using hbefore⟩
  simp only [Options.removeOption, hfind]
  rw [List.eraseP_append_right _ (by simpa using hbefore)]
  simp [hopt]

end

/-- The option that is found, and none before it. -/
theorem found {name : List UInt8} (hfind : (options.find? fun o => sameName o.name name) = some o) :
    sameName o.name name = true ∧ ∃ before after, options = before ++ o :: after ∧
      ∀ opt ∈ before.map OptionAt.toOption, sameName opt.name name = false := by
  obtain ⟨hmatch, before, after, hsplit, hbefore⟩ := List.find?_eq_some_iff_append.mp hfind
  refine ⟨hmatch, before, after, hsplit, fun opt hopt => ?_⟩
  obtain ⟨p, hp, rfl⟩ := List.mem_map.mp hopt
  simpa [OptionAt.toOption] using hbefore p hp

theorem notFound {name : List UInt8}
    (hfind : (options.find? fun o => sameName o.name name) = none) :
    ∀ opt ∈ options.map OptionAt.toOption, sameName opt.name name = false := by
  intro opt hopt
  obtain ⟨p, hp, rfl⟩ := List.mem_map.mp hopt
  simpa [OptionAt.toOption] using List.find?_eq_none.mp hfind p hp

theorem removeOption_spec (hh : Holds h options others) (optname : Option CString) :
    ∃ h' options', removeOption (some .table) optname h =
        some ((Options.removeOption optname (options.map OptionAt.toOption)).1, h') ∧
      Holds h' options' others ∧ options'.map OptionAt.toOption =
        (Options.removeOption optname (options.map OptionAt.toOption)).2 := by
  cases optname with
  | none => exact ⟨h, options, rfl, hh, rfl⟩
  | some name =>
    have hspec := findOption_spec hh name.bytes
    cases hfind : options.find? fun o => sameName o.name name.bytes with
    | none =>
      rw [hfind, Option.map_none] at hspec
      have hnone : Options.findOption (options.map OptionAt.toOption) name.bytes = none :=
        List.find?_eq_none.mpr (by simpa using notFound hfind)
      refine ⟨h, options, ?_, hh, ?_⟩
      · simp [removeOption, hspec, Options.removeOption, hnone]
      · simp [Options.removeOption, hnone]
    | some o =>
      rw [hfind, Option.map_some] at hspec
      obtain ⟨hmatch, before, after, rfl, hbefore⟩ := found hfind
      obtain ⟨h', hrun, hh'⟩ := removeOption_found hh hspec
      have htable := table_remove_found (after.map OptionAt.toOption) hbefore
        (show sameName o.toOption.name name.bytes = true from hmatch)
      rw [List.map_append, List.map_cons, htable]
      exact ⟨h', before ++ after, hrun, hh', List.map_append⟩

section

variable (hmalloc : ∀ n used, malloc n used ∉ used)
include hmalloc

theorem setOption_spec (hh : Holds h options others) (name value : Option CString)
    (type : SbArgType) :
    ∃ h' options' copied, setOption malloc name value type h =
        some ((Options.setOption name value type (options.map OptionAt.toOption)).1, h') ∧
      Holds h' options' (copied ++ others) ∧ options'.map OptionAt.toOption =
        (Options.setOption name value type (options.map OptionAt.toOption)).2 ∧
      copied.length = copies (.set name value type) := by
  cases name with
  | none => exact ⟨h, options, [], rfl, hh, rfl, rfl⟩
  | some name =>
    cases hfind : options.find? fun o => sameName o.name name.bytes with
    | none =>
      obtain ⟨h₁, o, hadd, hh₁, ho⟩ := addOption_new hmalloc hh hfind
      obtain ⟨h', values, copied, hrun, hvalues, hcopied, hafter, hkeeps⟩ :=
        setValues_spec hmalloc hh₁.among name value type hadd
      refine ⟨h', options ++ [{ o with type, values }], copied, ?_, hh₁.update hafter hkeeps rfl,
        ?_, hcopied⟩
      · rw [hrun, table_set_new value type _ (notFound hfind)]
      · rw [table_set_new value type _ (notFound hfind), List.map_append, List.map_singleton]
        simp only [OptionAt.toOption, SbOption.mk.injEq, Opt.mk.injEq] at ho ⊢
        rw [hvalues, ho.1.1]
    | some o =>
      obtain ⟨hmatch, before, after, rfl, hbefore⟩ := found hfind
      have hadd : addOption malloc (some .table) (some name.bytes) h = some (some o.block, h) := by
        simp [addOption, findOption_spec hh, hfind]
      obtain ⟨h', values, copied, hrun, hvalues, hcopied, hafter, hkeeps⟩ :=
        setValues_spec hmalloc hh.among name value type hadd
      have htable := table_set_found value type (after.map OptionAt.toOption) hbefore
        (show sameName o.toOption.name name.bytes = true from hmatch)
      rw [List.map_append, List.map_cons, htable]
      refine ⟨h', before ++ { o with type, values } :: after, copied, hrun,
        hh.update hafter hkeeps rfl, ?_, hcopied⟩
      rw [List.map_append, List.map_cons]
      simp [OptionAt.toOption, hvalues]

theorem run_spec (hh : Holds h options others) (calls : List Call) :
    ∃ h' options' copied, run malloc calls h =
        some ((answers Options.step calls (options.map OptionAt.toOption)).1, h') ∧
      Holds h' options' (copied ++ others) ∧ options'.map OptionAt.toOption =
        (answers Options.step calls (options.map OptionAt.toOption)).2 ∧
      copied.length = (calls.map copies).sum := by
  induction calls generalizing h options others with
  | nil => exact ⟨h, options, [], rfl, hh, rfl, rfl⟩
  | cons call calls ih =>
    have hstep : ∃ h₁ options₁ copied, step malloc call h =
          some ((Options.step call (options.map OptionAt.toOption)).1, h₁) ∧
        Holds h₁ options₁ (copied ++ others) ∧ options₁.map OptionAt.toOption =
          (Options.step call (options.map OptionAt.toOption)).2 ∧
        copied.length = copies call := by
      cases call with
      | set name value type => exact setOption_spec hmalloc hh name value type
      | remove optname =>
        obtain ⟨h₁, options₁, hrun, hh₁, htable⟩ := removeOption_spec hh optname
        exact ⟨h₁, options₁, [], hrun, hh₁, htable, rfl⟩
    obtain ⟨h₁, options₁, copied₁, hrun₁, hh₁, htable₁, hcopied₁⟩ := hstep
    obtain ⟨h₂, options₂, copied₂, hrun₂, hh₂, htable₂, hcopied₂⟩ := ih hh₁
    rw [htable₁] at hrun₂ htable₂
    refine ⟨h₂, options₂, copied₂ ++ copied₁, ?_, ?_, ?_, ?_⟩
    · simp [run, hrun₁, hrun₂, answers]
    · rwa [List.append_assoc]
    · rw [htable₂, answers]
    · rw [List.length_append, hcopied₁, hcopied₂, List.map_cons, List.sum_cons, Nat.add_comm]

end

/-- **The rings hold the table**, whatever is set and removed and whichever blocks `malloc` takes:
no call follows a stray pointer or frees a block twice; every call answers as it does in the
table; the rings go through the options of the table, in order, and each through its values; and
the blocks in use are those of the table, and one copy for each list that was set to a value that
is not empty. -/
theorem calls_follow (malloc : Nat → Finset Nat → Nat) (hmalloc : ∀ n used, malloc n used ∉ used)
    (calls : List Call) :
    ∃ h options copied,
      start malloc calls = some ((answers Options.step calls []).1, h) ∧
      Holds h options copied ∧
      options.map OptionAt.toOption = (answers Options.step calls []).2 ∧
      copied.length = (calls.map copies).sum := by
  have hhead : (Heap.empty.items .table).isSome := by simp [Heap.empty]
  obtain ⟨items, hinit, hring, -, -⟩ := init_through hhead
  have hh : Holds { Heap.empty with items } [] [] :=
    ⟨hring, by simp, ⟨by simp [Heap.empty], List.nodup_nil⟩⟩
  obtain ⟨h, options, copied, hrun, hafter, htable, hcopied⟩ := run_spec hmalloc hh calls
  rw [List.append_nil] at hafter
  exact ⟨h, options, copied, by simp [start, hinit, hrun], hafter, htable, hcopied⟩

/-- The first block that is not in use. -/
def firstFree (_ : Nat) (used : Finset Nat) : Nat := used.sup id + 1

theorem firstFree_notMem (n : Nat) (used : Finset Nat) : firstFree n used ∉ used := by
  intro h
  have hle : firstFree n used ≤ used.sup id := Finset.le_sup (f := id) h
  unfold firstFree at hle
  omega

/-- A list that is set twice leaves two copies behind, also when the option is gone. -/
theorem calls_follow_list : ∃ h options copied,
    start firstFree [.set (some nameA) (some valueYes) .list,
        .set (some nameA) (some valueOff) .list, .remove (some nameA)] = some ([(0, ""), (0, ""), (0, "")], h) ∧
      Holds h options copied ∧ options.map OptionAt.toOption = [] ∧ copied.length = 2 :=
  calls_follow firstFree firstFree_notMem [.set (some nameA) (some valueYes) .list,
    .set (some nameA) (some valueOff) .list, .remove (some nameA)]

end TokuQa.Sysbench.OptionsHeap
