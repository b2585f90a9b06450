import SparseLoop.Json.Decoding
import SparseLoop.Proofs.Index
import SparseLoop.Proofs.Json.Reading
import SparseLoop.Proofs.Traversal
import SparseLoop.Request.Canonical

/-!
# Writers that agree with readers

A reader of values refuses what does not fit into a word, so not every value
can be read back.  A writer and a reader agree on the values that fit if each
of these is read back as it was written, and if the reader gives no other.

There is one lemma for each form of value.  It makes the writer and the reader
of lists, sets and maps agree if those of their items do.  For records there is
one lemma on their fields, `fields?_record`.
-/

namespace SparseLoop

/-- All keys of a map are below a bound, and all its values fit. -/
def IndexMap.Fits {α : Type} (bound : Nat) (fits : α → Prop)
    (map : IndexMap α) : Prop :=
  ∀ entry ∈ map.entries, entry.1 < bound ∧ fits entry.2

instance {α : Type} (bound : Nat) (fits : α → Prop) [DecidablePred fits]
    (map : IndexMap α) : Decidable (map.Fits bound fits) :=
  inferInstanceAs (Decidable (∀ entry ∈ map.entries, _ ∧ _))

/-- All members of a set are words. -/
def IndexSet.Fits (set : IndexSet) : Prop :=
  ∀ index ∈ set.toList, index < UInt64.size

instance (set : IndexSet) : Decidable set.Fits :=
  inferInstanceAs (Decidable (∀ index ∈ set.toList, _))

namespace Json

open Traversal

/-- What is written has spelled literals, a value that fits is read back, and
every value that is read fits. -/
structure Agree {α : Type} (write : α → Json) (read? : Json → Option α)
    (fits : α → Prop) : Prop where
  written : ∀ value, IsWritten (write value)
  read : ∀ {value}, fits value → read? (write value) = some value
  sound : ∀ {json value}, read? json = some value → fits value

section Forms

variable {α : Type} {write : α → Json} {read? : Json → Option α}
  {fits : α → Prop} {values : List α}

/-! ## Numbers and texts -/

theorem agree_natural (bound : Nat) :
    Agree ofNatural (natural? bound) (· < bound) where
  written value := .number value
  read {value} small := by
    rw [ofNatural, natural?, Spelling.toList_toString,
      Spelling.natural?_digits]
    exact if_pos small
  sound {json value} found := by
    cases json with
    | number literal =>
      obtain ⟨value, _, kept⟩ := Option.bind_eq_some_iff.mp found
      split at kept
      · cases kept
        assumption
      · cases kept
    | _ => cases found

theorem agree_word : Agree ofNatural word? (· < UInt64.size) :=
  agree_natural UInt64.size

theorem agree_halfWord : Agree ofNatural halfWord? (· < UInt32.size) :=
  agree_natural UInt32.size

theorem agree_signed : Agree ofSigned signed? fun _ => True where
  written value := .number value.toInt
  read {value} _ := by
    have inside : Int64.minValue.toInt ≤ value.toInt ∧
        value.toInt ≤ Int64.maxValue.toInt :=
      ⟨value.minValue_le_toInt, value.toInt_le⟩
    rw [ofSigned, signed?, Spelling.integer?_toString]
    show (if _ then some (Int64.ofInt value.toInt) else none) = _
    rw [if_pos inside, Int64.ofInt_toInt]
  sound _ := trivial

theorem agree_boolean : Agree boolean boolean? fun _ => True where
  written := .boolean
  read _ := rfl
  sound _ := trivial

theorem agree_text : Agree ofText text? fun _ => True where
  written text := .string text.toList
  read _ := by simp [ofText, text?]
  sound _ := trivial

/-! ## Lists and sets -/

theorem mapM_written {β γ : Type} {write : β → γ} {read? : γ → Option β}
    {values : List β}
    (read : ∀ value ∈ values, read? (write value) = some value) :
    (values.map write).mapM read? = some values := by
  rw [mapM_eq_some_iff, List.forall₂_map_left_iff, List.forall₂_same]
  exact read

theorem Agree.list (agree : Agree write read? fits) :
    Agree (ofList write) (list? read?) fun values =>
      ∀ value ∈ values, fits value where
  written values := .array fun item member => by
    obtain ⟨value, _, rfl⟩ := List.mem_map.mp member
    exact agree.written value
  read each := mapM_written fun value member => agree.read (each value member)
  sound {json values} found value member := by
    cases json with
    | array items =>
      obtain ⟨item, _, answers⟩ :=
        exists_left_of_mem (mapM_eq_some_iff.mp found) member
      exact agree.sound answers
    | _ => cases found

theorem agree_set : Agree ofSet set? IndexSet.Fits where
  written set := agree_word.list.written set.toList
  read {set} each := by
    rw [ofSet, set?, agree_word.list.read each, Option.map_some,
      IndexSet.ofList_toList]
  sound {json set} found index member := by
    obtain ⟨indices, listed, rfl⟩ := Option.map_eq_some_iff.mp found
    exact agree_word.list.sound listed index
      (IndexSet.mem_ofList.mp member)

/-! ## Maps -/

/-- Writes an entry of a map as a member of an object. -/
def ofKeyed (write : α → Json) (entry : Nat × α) : List Char × Json :=
  ((toString entry.1).toList, write entry.2)

/-- Reads an entry of a map from a member of an object. -/
def keyed? (bound : Nat) (read? : Json → Option α)
    (member : List Char × Json) : Option (Nat × α) := do
  let index ← natural? bound (number member.1)
  pure (index, ← read? member.2)

theorem ofMap_eq (map : IndexMap α) :
    ofMap write map = object (map.entries.map (ofKeyed write)) :=
  rfl

theorem map?_object (bound : Nat) (members : List (List Char × Json)) :
    map? bound read? (object members) =
      (members.mapM (keyed? bound read?)).map IndexMap.ofList := by
  show (members.mapM (keyed? bound read?)).bind _ = _
  cases members.mapM (keyed? bound read?) <;> rfl

theorem Agree.keyed?_ofKeyed (agree : Agree write read? fits)
    {bound : Nat} {entry : Nat × α}
    (holds : entry.1 < bound ∧ fits entry.2) :
    keyed? bound read? (ofKeyed write entry) = some entry := by
  have key : natural? bound (number (toString entry.1).toList) =
      some entry.1 := (agree_natural bound).read holds.1
  rw [keyed?, ofKeyed, key, agree.read holds.2]
  rfl

theorem Agree.of_keyed? (agree : Agree write read? fits) {bound : Nat}
    {member : List Char × Json} {entry : Nat × α}
    (found : keyed? bound read? member = some entry) :
    entry.1 < bound ∧ fits entry.2 := by
  obtain ⟨index, keyed, rest⟩ := Option.bind_eq_some_iff.mp found
  obtain ⟨value, valued, equal⟩ := Option.bind_eq_some_iff.mp rest
  cases equal
  exact ⟨(agree_natural bound).sound keyed, agree.sound valued⟩

theorem Agree.map (agree : Agree write read? fits) (bound : Nat) :
    Agree (ofMap write) (map? bound read?) (IndexMap.Fits bound fits) where
  written map := by
    refine .object ?_ ?_ <;> intro member listed <;>
      obtain ⟨⟨key, value⟩, _, rfl⟩ := List.mem_map.mp listed
    · exact ⟨Spelling.digits key,
        (Spelling.toList_toString key).trans
          (Spelling.encode_digits key).symm⟩
    · exact agree.written value
  read {map} each := by
    have entries : (map.entries.map (ofKeyed write)).mapM
        (keyed? bound read?) = some map.entries :=
      mapM_written fun entry member =>
        agree.keyed?_ofKeyed (each entry member)
    rw [ofMap_eq, map?_object, entries, Option.map_some,
      IndexMap.ext (IndexMap.entries_ofList map.ascending)]
  sound {json map} found entry member := by
    cases json with
    | object members =>
      rw [map?_object] at found
      obtain ⟨entries, listed, rfl⟩ := Option.map_eq_some_iff.mp found
      obtain ⟨source, _, read⟩ := exists_left_of_mem
        (mapM_eq_some_iff.mp listed)
        (IndexMap.mem_of_mem_entries_ofList member)
      exact agree.of_keyed? read
    | _ => cases found

end Forms

/-! ## Records -/

section Records

variable {names : List String} {values : List Json}

theorem isWritten_record (names : List String)
    (written : ∀ value ∈ values, IsWritten value) :
    IsWritten (record names values) := by
  refine .object ?_ ?_ <;> intro member listed <;>
    obtain ⟨⟨name, value⟩, paired, rfl⟩ := List.mem_map.mp listed
  · exact ⟨name.toList, rfl⟩
  · exact written value (List.of_mem_zip paired).2

/-- A key that a list of members holds once has the value found there. -/
theorem filter_key {members : List (List Char × Json)} {key : List Char}
    {value : Json} (distinct : (members.map (·.1)).Nodup)
    (member : (key, value) ∈ members) :
    members.filter (·.1 == key) = [(key, value)] := by
  induction members with
  | nil => cases member
  | cons first rest ih =>
    rw [List.map_cons, List.nodup_cons] at distinct
    rcases List.mem_cons.mp member with rfl | later
    · have absent : rest.filter (·.1 == key) = [] := by
        rw [List.filter_eq_nil_iff]
        intro other present same
        refine distinct.1 (List.mem_map.mpr ⟨other, present, ?_⟩)
        exact eq_of_beq same
      simp [absent]
    · have apart : first.1 ≠ key := by
        rintro rfl
        exact distinct.1 (List.mem_map.mpr ⟨_, later, rfl⟩)
      simp [apart, ih distinct.2 later]

/-- The members of a record, by the names of its fields. -/
def fieldMembers (names : List String) (values : List Json) :
    List (List Char × Json) :=
  (names.zip values).map fun pair => (pair.1.toList, pair.2)

/-- Each name of a record has the value paired with it. -/
theorem member?_fieldMembers (distinct : names.Nodup)
    (complete : names.length = values.length) {name : String} {value : Json}
    (paired : (name, value) ∈ names.zip values) :
    member? (fieldMembers names values) name = some (some value) := by
  have keys : (fieldMembers names values).map (·.1) =
      names.map String.toList := by
    rw [fieldMembers, List.map_map]
    show (names.zip values).map (String.toList ∘ Prod.fst) = _
    rw [← List.map_map, List.map_fst_zip complete.le]
  have unique : ((fieldMembers names values).map (·.1)).Nodup := by
    rw [keys]
    exact distinct.map fun _ _ => String.toList_injective
  have listed : (name.toList, value) ∈ fieldMembers names values :=
    List.mem_map.mpr ⟨_, paired, rfl⟩
  rw [member?, filter_key unique listed]

/-- The fields of a record are the values that it was written with. -/
theorem fields?_record (distinct : names.Nodup)
    (complete : names.length = values.length) :
    fields? names (record names values) = some (values.map some) := by
  have decoded : ((names.zip values).map fun pair =>
      (Spelling.encode pair.1.toList, pair.2)).mapM
        (fun member => do
          pure (← Spelling.decode? member.1, member.2)) =
      some (fieldMembers names values) := by
    rw [fieldMembers, mapM_eq_some_iff, List.forall₂_map_left_iff,
      List.forall₂_map_right_iff, List.forall₂_same]
    intro pair _
    simp
  have found : names.mapM (member? (fieldMembers names values)) =
      some (values.map some) := by
    rw [mapM_eq_some_iff, List.forall₂_map_right_iff, List.forall₂_iff_zip]
    exact ⟨complete, fun paired =>
      member?_fieldMembers distinct complete paired⟩
  show (List.mapM _ _ >>= fun decoded => names.mapM (member? decoded)) = _
  rw [decoded]
  exact found

end Records

section Fields

variable {α : Type} {write : α → Json} {read? : Json → Option α}
  {fits : α → Prop} {field : Option Json} {value missing : α}

theorem Agree.of_required? (agree : Agree write read? fits)
    (found : required? read? field = some value) : fits value := by
  cases field with
  | none => cases found
  | some json => exact agree.sound found

theorem Agree.of_optional? (agree : Agree write read? fits)
    (standard : fits missing)
    (found : optional? read? missing field = some value) : fits value := by
  cases field with
  | none =>
    cases found
    exact standard
  | some json => exact agree.sound found

end Fields

end Json

end SparseLoop
