import Clickstream.Fault
import Clickstream.Proofs.Misfits
import Clickstream.Proofs.Refusals

namespace Clickstream.Wire
open Datum Reader Varint

section Collections

variable {α : Type}

/-- Blocks that are read to their ends. The count of zero does not stand behind them yet. -/
inductive Whole (item : Grammar α) : Grammar (List α)
  | nil : Whole item [] []
  | more {head body rest : List UInt8} {values others : List α} : BlockCount head values.length →
    Items item body values → Whole item rest others →
    Whole item (head ++ body ++ rest) (values ++ others)

/-- The place of the head of a block. -/
def AtBlock (width : Nat) (item : Grammar α) : Grammar (List α) := fun taken values =>
  Whole item taken values ∧ (width = 0 → values.length ≤ zeroWidthLimit)

/-- The place of an item: behind whole blocks, the head of one more, and fewer of its items than
it counts. The values are the items of all these blocks. -/
inductive AtItem (width : Nat) (item : Grammar α) : List UInt8 → List α → List UInt8 → Prop
  | mk {blocks head body unread : List UInt8} {earlier current : List α} {count : Nat} :
    AtBlock width item blocks earlier → BlockCount head count →
    Admits width earlier.length count (body ++ unread) → Items item body current →
    current.length < count → AtItem width item (blocks ++ head ++ body) (earlier ++ current) unread

/-- The next block is refused for its head or for one of its items. -/
inductive BlockRefusal (width : Nat) (item : Grammar α) (bad : Nat → Refusal) (done : Nat) : Refusal
  | head {input rest : List UInt8} {cause : Corruption} : BadBlock width done input cause rest →
    BlockRefusal width item bad done input (.here cause) rest
  | item {head body unread rest : List UInt8} {current : List α} {count : Nat}
    {fault : Located Corruption} : BlockCount head count →
    Admits width done count (body ++ unread) → Items item body current → current.length < count →
    bad (done + current.length) unread fault rest →
    BlockRefusal width item bad done (head ++ body ++ unread) fault rest

/-- Any number of blocks may be read before the one that is refused. -/
def BlocksRefusal (width : Nat) (item : Grammar α) (bad : Nat → Refusal) (done : Nat) : Refusal :=
  fun input fault rest => ∃ taken values back, input = taken ++ back ∧ Whole item taken values ∧
    (width = 0 → done + values.length ≤ zeroWidthLimit) ∧
    BlockRefusal width item bad (done + values.length) back fault rest

variable {item : Nat → Reader α} {grammar : Grammar α} {bad : Nat → Refusal} {width : Nat}

/-- With nothing left there is no head of a block. -/
theorem blockRefusal_nil_iff {done : Nat} {rest : List UInt8} {fault : Located Corruption} :
    BlockRefusal width grammar bad done [] fault rest ↔
      fault = .here (.truncated 1 0) ∧ rest = [] := by
  constructor
  · intro next
    generalize empty : ([] : List UInt8) = input at next
    cases next with
    | head bad =>
      cases bad with
      | count bad =>
        subst empty
        have told : EStateM.Result.error _ _ = _ := (readCount_refuses [] _ _).mpr ⟨_, rfl, bad⟩
        cases told
        exact ⟨rfl, rfl⟩
      | excess block =>
        obtain ⟨rfl, -⟩ := List.append_eq_nil_iff.mp empty.symm
        exact absurd block.pos.1 (Nat.lt_irrefl 0)
    | item block =>
      obtain ⟨front, -⟩ := List.append_eq_nil_iff.mp empty.symm
      obtain ⟨rfl, -⟩ := List.append_eq_nil_iff.mp front
      exact absurd block.pos.1 (Nat.lt_irrefl 0)
  · intro given
    obtain ⟨rfl, rfl⟩ := given
    exact .head (.count (.long (.ended (Nat.zero_le 9) (by simp))))

/-- Reading fails in the block that comes next, or behind it. -/
theorem readBlocks_cons_error_iff (h : ∀ position, Exact (item position) grammar)
    (k : ∀ position, Refuses (item position) (bad position))
    {byte : UInt8} {bound input rest : List UInt8} {done : Array α} {fault : Located Corruption} :
    readBlocks width item (byte :: bound) done input = .error fault rest ↔
      BlockRefusal width grammar bad done.size input fault rest ∨
        ∃ head body values back, input = head ++ (body ++ back) ∧ BlockCount head values.length ∧
          Admits width done.size values.length (body ++ back) ∧ Items grammar body values ∧
          readBlocks width item bound (done ++ values.toArray) back = .error fault rest := by
  rw [readBlocks_cons, bind_error_iff]
  constructor
  · intro given
    obtain refused | ⟨count, mid, one, two⟩ := given
    · obtain ⟨cause, rfl, bad⟩ := (readCount_refuses _ _ _).mp refused
      exact .inl (.head (.count bad))
    obtain ⟨head, rfl, ⟨rfl, codes⟩ | block⟩ := (readCount_exact _ _ _).mp one
    · cases two
    rw [if_neg (Nat.ne_of_gt block.pos.2), bind_error_iff] at two
    obtain refused | ⟨_, _, checked, two⟩ := two
    · obtain ⟨cause, rfl, excess, rfl⟩ := (checkCount_refuses _ _ _ _ _ _).mp refused
      exact .inl (.head (.excess block excess))
    obtain ⟨rfl, admits⟩ := checkCount_ok_iff.mp checked
    rw [bind_error_iff] at two
    obtain refused | ⟨next, mid, one, later⟩ := two
    · obtain ⟨body, current, unread, rfl, items, less, bad⟩ :=
        (readItems_refuses h k _ _ _ _ _).mp refused
      refine .inl ?_
      have split := BlockRefusal.item block admits items less bad
      rwa [List.append_assoc] at split
    · obtain ⟨body, rfl, values, rfl, items, rfl⟩ := (readItems_exact h _ _ _ _ _).mp one
      exact .inr ⟨head, body, values, mid, rfl, block, admits, items, later⟩
  · intro given
    obtain next | ⟨head, body, values, back, rfl, block, admits, items, later⟩ := given
    · cases next with
      | head bad =>
        cases bad with
        | count bad => exact .inl ((readCount_refuses _ _ _).mpr ⟨_, rfl, bad⟩)
        | excess block excess =>
          refine .inr ⟨_, _, (readCount_exact _ _ _).mpr ⟨_, rfl, .inr block⟩, ?_⟩
          rw [if_neg (Nat.ne_of_gt block.pos.2), bind_error_iff]
          exact .inl ((checkCount_refuses _ _ _ _ _ _).mpr ⟨_, rfl, excess, rfl⟩)
      | item block admits items less bad =>
        refine .inr ⟨_, _, (readCount_exact _ _ _).mpr ⟨_, List.append_assoc .., .inr block⟩, ?_⟩
        rw [if_neg (Nat.ne_of_gt block.pos.2), bind_error_iff]
        refine .inr ⟨(), _, checkCount_ok_iff.mpr ⟨rfl, admits⟩, ?_⟩
        rw [bind_error_iff]
        exact .inl ((readItems_refuses h k _ _ _ _ _).mpr ⟨_, _, _, rfl, items, less, bad⟩)
    · have run := (readItems_exact h values.length done _ _ back).mpr
        ⟨body, rfl, values, rfl, items, rfl⟩
      refine .inr ⟨_, _, (readCount_exact _ _ _).mpr ⟨head, rfl, .inr block⟩, ?_⟩
      rw [if_neg (Nat.ne_of_gt block.pos.2), bind_error_iff]
      refine .inr ⟨(), _, checkCount_ok_iff.mpr ⟨rfl, admits⟩, ?_⟩
      rw [bind_error_iff]
      exact .inr ⟨_, back, run, later⟩

theorem readBlocks_error_iff (h : ∀ position, Exact (item position) grammar)
    (wide : ∀ taken value, grammar taken value → width ≤ taken.length)
    (k : ∀ position, Refuses (item position) (bad position))
    {bound input rest : List UInt8} {done : Array α} {fault : Located Corruption}
    (enough : input.length ≤ bound.length) (few : width = 0 → done.size ≤ zeroWidthLimit) :
    readBlocks width item bound done input = .error fault rest ↔
      BlocksRefusal width grammar bad done.size input fault rest := by
  induction bound generalizing input done with
  | nil =>
    obtain rfl := List.length_eq_zero_iff.mp (Nat.le_zero.mp enough)
    have refused : readBlocks width item [] done [] =
      .error (Located.here (.truncated 1 0)) [] := rfl
    rw [refused]
    constructor
    · intro told
      cases told
      exact ⟨[], [], [], rfl, .nil, few, blockRefusal_nil_iff.mpr ⟨rfl, rfl⟩⟩
    · intro given
      obtain ⟨taken, values, back, split, -, -, next⟩ := given
      obtain ⟨rfl, rfl⟩ := List.append_eq_nil_iff.mp split.symm
      obtain ⟨rfl, rfl⟩ := blockRefusal_nil_iff.mp next
      rfl
  | cons _ bound ih =>
    rw [readBlocks_cons_error_iff h k]
    constructor
    · intro given
      obtain next | ⟨head, body, values, back, rfl, block, admits, items, later⟩ := given
      · exact ⟨[], [], input, rfl, .nil, few, next⟩
      · have pos := block.pos
        simp only [List.length_append, List.length_cons] at enough
        obtain ⟨taken, others, back, rfl, whole, small, next⟩ :=
          (ih (by omega) (by simpa using admits.1)).mp later
        refine ⟨head ++ body ++ taken, values ++ others, back, by simp,
          .more block items whole, ?_, ?_⟩
        · simpa [Nat.add_assoc] using small
        · simpa [Nat.add_assoc] using next
    · intro given
      obtain ⟨_, _, back, rfl, whole, small, next⟩ := given
      cases whole with
      | nil => exact .inl next
      | @more head body tail values others block items whole =>
        have pos := block.pos
        simp only [List.length_append, List.length_cons] at enough small
        -- A block that is there as a whole was admitted, whatever is bad behind it.
        have admits : Admits width done.size values.length (body ++ (tail ++ back)) :=
          (checkCount_ok_iff.mp (checkCount_items wide items (by omega))).2
        refine .inr ⟨head, body, values, tail ++ back, by simp, block, admits, items, ?_⟩
        refine (ih (by simp; omega) (by simp; omega)).mpr ⟨tail, others, back, rfl, whole, ?_, ?_⟩
        · simpa [Nat.add_assoc] using small
        · simpa [Nat.add_assoc] using next

theorem readCollection_refuses (h : ∀ position, Exact (item position) grammar)
    (wide : ∀ taken value, grammar taken value → width ≤ taken.length)
    (k : ∀ position, Refuses (item position) (bad position)) :
    Refuses (readCollection width item) fun input fault rest =>
      ∃ taken values back, input = taken ++ back ∧
        ((AtBlock width grammar taken values ∧
            Defect.here (BadBlock width values.length) back fault rest) ∨
          (AtItem width grammar taken values back ∧ bad values.length back fault rest)) := by
  have blocks : Refuses (fun input => readBlocks width item input #[] input)
      (BlocksRefusal width grammar bad 0) := fun input fault rest =>
    readBlocks_error_iff h wide k (Nat.le_refl _) fun _ => Nat.zero_le _
  have run : readCollection width item =
      Array.toList <$> fun input => readBlocks width item input #[] input :=
    funext (readCollection_eq width item)
  rw [run]
  refine (blocks.map Array.toList).congr fun input fault rest => ?_
  simp only [BlocksRefusal, Nat.zero_add]
  constructor
  · intro given
    obtain ⟨taken, values, back, rfl, whole, small, next⟩ := given
    cases next with
    | head bad => exact ⟨taken, values, back, rfl, .inl ⟨⟨whole, small⟩, _, rfl, bad⟩⟩
    | @item head body unread _ current _ _ block admits items less bad =>
      refine ⟨taken ++ head ++ body, values ++ current, unread, by simp, .inr ⟨?_, ?_⟩⟩
      · exact .mk ⟨whole, small⟩ block admits items less
      · rwa [List.length_append]
  · intro given
    obtain ⟨_, _, back, rfl, ⟨⟨whole, small⟩, cause, rfl, bad⟩ | ⟨atItem, bad⟩⟩ := given
    · exact ⟨_, _, _, rfl, whole, small, .head bad⟩
    · cases atItem with
      | @mk blocks head body _ earlier current _ atBlock block admits items less =>
        rw [List.length_append] at bad
        refine ⟨blocks, earlier, head ++ body ++ back, by simp, atBlock.1, atBlock.2, ?_⟩
        exact .item block admits items less bad

end Collections

/-- The path from a schema to one of its nodes, and from its bytes to those of the node, behind all
that is read before. -/
inductive Descends : Path → Schema → List UInt8 → Schema → List UInt8 → Prop
  | here (schema : Schema) (input : List UInt8) : Descends [] schema input schema input
  | index {item node : Schema} {path : Path} {taken unread back : List UInt8}
    {items : List Value} : AtItem item.minWidth (Encodes item) taken items unread →
    Descends path item unread node back →
    Descends (.index items.length :: path) (.array item) (taken ++ unread) node back
  | key {schema node : Schema} {path : Path} {taken front unread back : List UInt8}
    {entries : List (String × Value)} {key : String} :
    AtItem (Size.add schema.minWidth 1) (Entry (Encodes schema)) taken entries (front ++ unread) →
    Sized front (Utf8.encode key) → Descends path schema unread node back →
    Descends (.key key :: path) (.map schema) (taken ++ (front ++ unread)) node back
  | branch {branches : List Schema} {inner node : Schema} {path : Path}
    {front unread back : List UInt8} {position : UInt32} : Codes front position.toNat →
    branches[position.toNat]? = some inner → Descends path inner unread node back →
    Descends (.branch position.toNat :: path) (.union branches) (front ++ unread) node back
  | field {record name : String} {before after : List (String × Schema)} {inner node : Schema}
    {path : Path} {taken unread back : List UInt8} {values : List Value} :
    FieldsEncode before taken values → Descends path inner unread node back →
    Descends (.field name :: path) (.record record (before ++ (name, inner) :: after))
      (taken ++ unread) node back

/-- The bytes of a node itself are bad. What is in items, entries, branches and fields is not meant,
the keys of a map are. -/
inductive Spoiled : Schema → Defect
  | noBoolean : Spoiled .boolean [] (.truncated 1 0) []
  | boolean {byte : UInt8} {rest : List UInt8} : 1 < byte →
    Spoiled .boolean (byte :: rest) (.boolean byte) rest
  | int {input rest : List UInt8} {cause : Corruption} : BadInt input cause rest →
    Spoiled .int input cause rest
  | long {input rest : List UInt8} {cause : Corruption} : BadLong input cause rest →
    Spoiled .long input cause rest
  | float {input : List UInt8} : input.length < 4 →
    Spoiled .float input (.truncated 4 input.length) input
  | double {input : List UInt8} : input.length < 8 →
    Spoiled .double input (.truncated 8 input.length) input
  | bytes {input rest : List UInt8} {cause : Corruption} : BadBytes input cause rest →
    Spoiled .bytes input cause rest
  | string {input rest : List UInt8} {cause : Corruption} : BadString input cause rest →
    Spoiled .string input cause rest
  | items {item : Schema} {taken back rest : List UInt8} {items : List Value}
    {cause : Corruption} : AtBlock item.minWidth (Encodes item) taken items →
    BadBlock item.minWidth items.length back cause rest →
    Spoiled (.array item) (taken ++ back) cause rest
  | entries {schema : Schema} {taken back rest : List UInt8} {entries : List (String × Value)}
    {cause : Corruption} :
    AtBlock (Size.add schema.minWidth 1) (Entry (Encodes schema)) taken entries →
    BadBlock (Size.add schema.minWidth 1) entries.length back cause rest →
    Spoiled (.map schema) (taken ++ back) cause rest
  | key {schema : Schema} {taken back rest : List UInt8} {entries : List (String × Value)}
    {cause : Corruption} :
    AtItem (Size.add schema.minWidth 1) (Entry (Encodes schema)) taken entries back →
    BadString back cause rest → Spoiled (.map schema) (taken ++ back) cause rest
  | branch {branches : List Schema} {input rest : List UInt8} {cause : Corruption} :
    BadIndex .branch branches.length input cause rest → Spoiled (.union branches) input cause rest
  | symbol {name : String} {symbols : List String} {input rest : List UInt8} {cause : Corruption} :
    BadIndex .symbol symbols.length input cause rest →
    Spoiled (.enum name symbols) input cause rest
  | fixed {name : String} {size : Nat} {input : List UInt8} : input.length < size →
    Spoiled (.fixed name size) input (.truncated size input.length) input

theorem Spoiled.suffix {node : Schema} {input rest : List UInt8} {cause : Corruption}
    (h : Spoiled node input cause rest) : rest <:+ input := by
  cases h with
  | noBoolean | float | double | fixed => exact List.suffix_rfl
  | boolean => exact List.suffix_cons _ rest
  | int bad | long bad | bytes bad | string bad | branch bad | symbol bad => exact bad.suffix
  | items _ bad | entries _ bad | key _ bad => exact bad.suffix.trans (List.suffix_append _ _)

theorem Descends.suffix {path : Path} {schema node : Schema} {input back : List UInt8}
    (h : Descends path schema input node back) : back <:+ input := by
  induction h with
  | here => exact List.suffix_rfl
  | index _ _ ih | branch _ _ _ ih | field _ _ ih => exact ih.trans (List.suffix_append _ _)
  | key _ _ _ ih =>
    exact ih.trans ((List.suffix_append _ _).trans (List.suffix_append _ _))

/-- A schema is refused for the bytes of one of its nodes. -/
def Stops (schema : Schema) : Refusal := fun input fault rest =>
  ∃ node back, Descends fault.path schema input node back ∧ Spoiled node back fault.cause rest

section Containers

theorem readArray_refuses {item : Schema} (h : Refuses (read item) (Stops item)) :
    Refuses (read (.array item)) (Stops (.array item)) := by
  refine ((readCollection_refuses (fun position => (read_exact item).within (.index position))
    (fun _ _ => Encodes.minWidth_le item)
    fun position => h.within (.index position)).map Value.array).congr fun input fault rest => ?_
  constructor
  · intro given
    obtain ⟨taken, items, back, rfl, ⟨atBlock, cause, rfl, bad⟩ | ⟨atItem, stops⟩⟩ := given
    · exact ⟨_, _, .here _ _, .items atBlock bad⟩
    · obtain ⟨inner, rfl, node, deep, descends, spoiled⟩ := stops
      exact ⟨node, deep, .index atItem descends, spoiled⟩
  · intro given
    obtain ⟨path, cause⟩ := fault
    obtain ⟨node, deep, descends, spoiled⟩ := given
    cases descends with
    | here =>
      cases spoiled with
      | items atBlock bad => exact ⟨_, _, _, rfl, .inl ⟨atBlock, cause, rfl, bad⟩⟩
    | index atItem descends =>
      exact ⟨_, _, _, rfl, .inr ⟨atItem, ⟨_, cause⟩, rfl, node, deep, descends, spoiled⟩⟩

theorem readMap_refuses {schema : Schema} (h : Refuses (read schema) (Stops schema)) :
    Refuses (read (.map schema)) (Stops (.map schema)) := by
  have entry (position : Nat) := (readString_refuses.bind readString_exact _ fun key _ _ =>
    (h.within (.key key)).bind ((read_exact schema).within (.key key)) _ fun value _ _ =>
      Refuses.pure (key, value))
  refine ((readCollection_refuses (fun _ => readEntry_exact (read_exact schema)) Entry.width_le
    entry).map Value.map).congr fun input fault rest => ?_
  constructor
  · intro given
    obtain ⟨taken, entries, back, rfl, ⟨atBlock, cause, rfl, bad⟩ | ⟨atItem, bad⟩⟩ := given
    · exact ⟨_, _, .here _ _, .entries atBlock bad⟩
    · obtain ⟨cause, rfl, bad⟩ | ⟨front, back, key, rfl, sized, ⟨inner, rfl, stops⟩ | none⟩ := bad
      · exact ⟨_, _, .here _ _, .key atItem bad⟩
      · obtain ⟨node, deep, descends, spoiled⟩ := stops
        exact ⟨node, deep, .key atItem sized descends, spoiled⟩
      · obtain ⟨_, _, _, _, _, ⟨⟩⟩ := none
  · intro given
    obtain ⟨path, cause⟩ := fault
    obtain ⟨node, deep, descends, spoiled⟩ := given
    cases descends with
    | here =>
      cases spoiled with
      | entries atBlock bad => exact ⟨_, _, _, rfl, .inl ⟨atBlock, cause, rfl, bad⟩⟩
      | key atItem bad => exact ⟨_, _, _, rfl, .inr ⟨atItem, .inl ⟨cause, rfl, bad⟩⟩⟩
    | key atItem sized descends =>
      refine ⟨_, _, _, rfl, .inr ⟨atItem, .inr ⟨_, _, _, rfl, sized, .inl ?_⟩⟩⟩
      exact ⟨⟨_, cause⟩, rfl, node, deep, descends, spoiled⟩

theorem readUnion_refuses {branches : List Schema}
    (h : ∀ (position : Nat) (step : Reader Value), branch? branches position = some step →
      ∃ inner, branches[position]? = some inner ∧ Refuses step (Stops inner)) :
    Refuses (read (.union branches)) (Stops (.union branches)) := by
  refine ((readIndex_refuses .branch branches.length).bind (readIndex_exact .branch branches.length)
    (fun position => Refusal.within (.branch position.toNat) fun input fault rest =>
      ∃ inner, branches[position.toNat]? = some inner ∧ Stops inner input fault rest)
    ?_).congr fun input fault rest => ?_
  · intro position front one
    obtain ⟨step, found⟩ := Option.isSome_iff_exists.mp
      ((isSome_branch?_iff branches position.toNat).mpr one.2)
    obtain ⟨inner, there, stops⟩ := h _ step found
    simp only [found, Option.getD_some]
    refine ((stops.congr fun input fault rest => ?_).within _).map (Value.union position)
    simp only [there, Option.some.injEq, exists_eq_left']
  · constructor
    · intro given
      obtain ⟨cause, rfl, bad⟩ | ⟨front, back, position, rfl, ⟨codes, -⟩, inner, rfl, schema,
        there, node, deep, descends, spoiled⟩ := given
      · exact ⟨_, _, .here _ _, .branch bad⟩
      · exact ⟨node, deep, .branch codes there descends, spoiled⟩
    · intro given
      obtain ⟨path, cause⟩ := fault
      obtain ⟨node, deep, descends, spoiled⟩ := given
      cases descends with
      | here =>
        cases spoiled with
        | branch bad => exact .inl ⟨cause, rfl, bad⟩
      | @branch _ inner _ path front unread _ position codes there descends =>
        have inside := (List.getElem?_eq_some_iff.mp there).1
        refine .inr ⟨front, unread, position, rfl, ⟨codes, inside⟩, ⟨path, cause⟩, rfl, ?_⟩
        exact ⟨inner, there, node, deep, descends, spoiled⟩

/-- One field is refused behind all that stand in front of it. -/
def FieldsStop (fields : List (String × Schema)) : Refusal := fun input fault rest =>
  ∃ before name inner after, fields = before ++ (name, inner) :: after ∧
    ∃ taken values back, input = taken ++ back ∧ FieldsEncode before taken values ∧
      Refusal.within (.field name) (Stops inner) back fault rest

theorem fieldsStop_cons_iff {name : String} {schema : Schema} {fields : List (String × Schema)}
    {input rest : List UInt8} {fault : Located Corruption} :
    FieldsStop ((name, schema) :: fields) input fault rest ↔
      Refusal.within (.field name) (Stops schema) input fault rest ∨
        ∃ front back value, input = front ++ back ∧ Encodes schema front value ∧
          FieldsStop fields back fault rest := by
  constructor
  · intro given
    obtain ⟨before, name', inner, after, split, taken, values, back, rfl, earlier, stops⟩ := given
    cases before with
    | nil =>
      obtain ⟨⟨rfl, rfl⟩, rfl⟩ : (name = name' ∧ schema = inner) ∧ fields = after := by
        simpa using split
      obtain ⟨rfl, rfl⟩ := earlier
      exact .inl stops
    | cons field before =>
      obtain ⟨rfl, rfl⟩ : (name, schema) = field ∧ fields = before ++ (name', inner) :: after := by
        simpa using split
      obtain ⟨front, middle, value, others, rfl, one, body, rfl⟩ := earlier
      refine .inr ⟨front, middle ++ back, value, by simp, one, ?_⟩
      exact ⟨before, name', inner, after, rfl, middle, others, back, rfl, body, stops⟩
  · intro given
    obtain stops | ⟨front, _, value, rfl, one, later⟩ := given
    · exact ⟨[], name, schema, fields, rfl, [], [], input, rfl, ⟨rfl, rfl⟩, stops⟩
    · obtain ⟨before, name', inner, after, rfl, middle, others, back, rfl, body, stops⟩ := later
      refine ⟨(name, schema) :: before, name', inner, after, rfl, front ++ middle,
        value :: others, back, by simp, ?_, stops⟩
      exact ⟨front, middle, value, others, rfl, one, body, rfl⟩

theorem readRecord_refuses {record : String} {fields : List (String × Schema)}
    (h : Refuses (readFields fields) (FieldsStop fields)) :
    Refuses (read (.record record fields)) (Stops (.record record fields)) := by
  refine (h.map Value.record).congr fun input fault rest => ?_
  constructor
  · intro given
    obtain ⟨before, name, inner, after, rfl, taken, values, back, rfl, earlier, stops⟩ := given
    obtain ⟨fault, rfl, node, deep, descends, spoiled⟩ := stops
    exact ⟨node, deep, .field earlier descends, spoiled⟩
  · intro given
    obtain ⟨path, cause⟩ := fault
    obtain ⟨node, deep, descends, spoiled⟩ := given
    cases descends with
    | here => cases spoiled
    | field earlier descends =>
      exact ⟨_, _, _, _, rfl, _, _, _, rfl, earlier, ⟨_, cause⟩, rfl, node, deep, descends, spoiled⟩

end Containers

section Leaves

variable {α : Type} {step : Reader α}

/-- A node with nothing below it can only be refused for its own bytes. -/
theorem refuses_leaf {schema : Schema} (h : Refuses step (Defect.here (Spoiled schema)))
    (leaf : ∀ segment path input node back, ¬ Descends (segment :: path) schema input node back) :
    Refuses step (Stops schema) := by
  refine h.congr fun input fault rest => ?_
  constructor
  · intro given
    obtain ⟨cause, rfl, spoiled⟩ := given
    exact ⟨schema, input, .here schema input, spoiled⟩
  · intro given
    obtain ⟨path, cause⟩ := fault
    obtain ⟨node, back, descends, spoiled⟩ := given
    cases path with
    | nil =>
      cases descends
      exact ⟨cause, rfl, spoiled⟩
    | cons segment path => exact absurd descends (leaf segment path input node back)

theorem readBoolean_refuses : Refuses readBoolean (Defect.here (Spoiled .boolean)) := by
  refine (Refuses.readByte.here_bind Exact.readByte (fun byte input cause rest =>
    1 < byte ∧ cause = .boolean byte ∧ rest = input) ?_).here_congr ?_
  · intro byte _ _
    by_cases zero : byte = 0
    · rw [if_pos zero, zero]
      exact Refuses.here_pure _ fun _ _ _ ⟨large, _⟩ => absurd large (by decide)
    by_cases one : byte = 1
    · rw [if_neg zero, if_pos one, one]
      exact Refuses.here_pure _ fun _ _ _ ⟨large, _⟩ => absurd large (by decide)
    have large : 1 < byte := by
      rw [UInt8.lt_iff_toNat_lt]
      rw [← UInt8.toNat_inj] at zero one
      simp at zero one ⊢
      omega
    rw [if_neg zero, if_neg one]
    simp only [large, true_and]
    exact Refuses.refuse _
  · intro input cause rest
    constructor
    · intro given
      obtain ⟨rfl, rfl, rfl⟩ | ⟨_, back, byte, rfl, rfl, large, rfl, rfl⟩ := given
      · exact .noBoolean
      · exact .boolean large
    · intro spoiled
      cases spoiled with
      | noBoolean => exact .inl ⟨rfl, rfl, rfl⟩
      | @boolean byte _ large => exact .inr ⟨[byte], _, byte, rfl, rfl, large, rfl, rfl⟩

theorem readEnum_refuses (name : String) (symbols : List String) :
    Refuses (read (.enum name symbols)) (Stops (.enum name symbols)) := by
  refine refuses_leaf (((readIndex_refuses .symbol symbols.length).map _).here_congr
    fun _ _ _ => ?_) nofun
  exact ⟨.symbol, fun (.symbol bad) => bad⟩

end Leaves

mutual

/-- The reader of a schema fails for the bytes of one of its nodes. -/
theorem read_refuses (schema : Schema) : Refuses (read schema) (Stops schema) := by
  match schema with
  | .null => exact refuses_leaf (Refuses.here_pure _ nofun) nofun
  | .boolean => exact refuses_leaf (readBoolean_refuses.map _) nofun
  | .int =>
    refine refuses_leaf ((readInt_refuses.map _).here_congr fun _ _ _ => ?_) nofun
    exact ⟨.int, fun (.int bad) => bad⟩
  | .long =>
    refine refuses_leaf ((readLong_refuses.map _).here_congr fun _ _ _ => ?_) nofun
    exact ⟨.long, fun (.long bad) => bad⟩
  | .float =>
    refine refuses_leaf (((Refuses.readBlock 4).map _).here_congr fun _ _ _ => ⟨?_, ?_⟩) nofun
    · rintro ⟨less, rfl, rfl⟩
      exact .float less
    · rintro ⟨⟩
      exact ⟨‹_›, rfl, rfl⟩
  | .double =>
    refine refuses_leaf (((Refuses.readBlock 8).map _).here_congr fun _ _ _ => ⟨?_, ?_⟩) nofun
    · rintro ⟨less, rfl, rfl⟩
      exact .double less
    · rintro ⟨⟩
      exact ⟨‹_›, rfl, rfl⟩
  | .bytes =>
    refine refuses_leaf ((readBytes_refuses.map _).here_congr fun _ _ _ => ?_) nofun
    exact ⟨.bytes, fun (.bytes bad) => bad⟩
  | .string =>
    refine refuses_leaf ((readString_refuses.map _).here_congr fun _ _ _ => ?_) nofun
    exact ⟨.string, fun (.string bad) => bad⟩
  | .array item => exact readArray_refuses (read_refuses item)
  | .map schema => exact readMap_refuses (read_refuses schema)
  | .union branches => exact readUnion_refuses (branch_refuses branches)
  | .enum name symbols => exact readEnum_refuses name symbols
  | .fixed _ size =>
    refine refuses_leaf (((Refuses.readBlock size).map _).here_congr fun _ _ _ => ⟨?_, ?_⟩) nofun
    · rintro ⟨less, rfl, rfl⟩
      exact .fixed less
    · rintro ⟨⟩
      exact ⟨‹_›, rfl, rfl⟩
  | .record _ fields => exact readRecord_refuses (readFields_refuses fields)

theorem branch_refuses (branches : List Schema) (position : Nat) (step : Reader Value)
    (found : branch? branches position = some step) :
    ∃ inner, branches[position]? = some inner ∧ Refuses step (Stops inner) := by
  match branches, position with
  | [], _ => cases found
  | schema :: _, 0 =>
    obtain rfl : read schema = step := by simpa [branch?] using found
    exact ⟨schema, rfl, read_refuses schema⟩
  | _ :: rest, position + 1 => exact branch_refuses rest position step found

theorem readFields_refuses (fields : List (String × Schema)) :
    Refuses (readFields fields) (FieldsStop fields) := by
  match fields with
  | [] =>
    refine (Refuses.pure _).congr fun input fault rest => iff_of_false id ?_
    rintro ⟨before, name, inner, after, split, -⟩
    simp at split
  | (name, schema) :: rest =>
    refine (((read_refuses schema).within (.field name)).bind ((read_exact schema).within _) _
      fun value _ _ => (readFields_refuses rest).map (value :: ·)).congr fun input fault rest => ?_
    rw [fieldsStop_cons_iff]

end

end Clickstream.Wire
