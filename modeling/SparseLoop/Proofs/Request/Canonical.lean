import SparseLoop.Proofs.Json.Coding
import SparseLoop.Provenance
import SparseLoop.Request.Decoding

/-!
# The canonical text is a normal form

A request is representable if its numbers fit into the words that a text may
hold: 64 bits, or 32 bits for the numbers of loops.  Every request that is read
from a text is representable, and every representable request is read back from
its canonical text.  So two texts describe the same request exactly if the
requests read from them have the same canonical text, and what the digest of a
request is taken of says which request it is.
-/

namespace SparseLoop

open Json

/-! ## Representable requests -/

/-- Options with a number of inputs that fits into a word. -/
def Options.IsRepresentable (options : Options) : Prop :=
  options.inputCount < UInt64.size

instance (options : Options) : Decidable options.IsRepresentable :=
  inferInstanceAs (Decidable (_ < _))

/-- A usage description whose numbers fit into words. -/
structure Sparsity.IsRepresentable (sparsity : Sparsity) : Prop where
  elements : sparsity.elements.Fits UInt64.size
    fun positions => ∀ position ∈ positions, position < UInt64.size
  loopGroups : sparsity.loopGroups.Fits UInt32.size <|
    IndexMap.Fits UInt64.size <| IndexMap.Fits UInt64.size IndexSet.Fits
  rowElements : sparsity.rowElements.Fits UInt64.size IndexSet.Fits
  locations : sparsity.locations.Fits UInt64.size
    fun positions => ∀ set ∈ positions, IndexSet.Fits set
  ordered : sparsity.ordered.Fits UInt64.size fun _ => True
  entryCount : sparsity.entryCount < UInt64.size

/-- A loop position whose numbers fit into words. -/
def LoopPosition.IsRepresentable (position : LoopPosition) : Prop :=
  position.tape < UInt64.size ∧ position.outer < UInt64.size

instance (position : LoopPosition) : Decidable position.IsRepresentable :=
  inferInstanceAs (Decidable (_ ∧ _))

/-- A loop model whose numbers fit into words. -/
structure LoopModel.IsRepresentable (model : LoopModel) : Prop where
  id : model.id < UInt32.size
  iterationCount : model.iterationCount < UInt64.size
  indexedIndependents : ∀ positions ∈ model.indexedIndependents,
    ∀ position ∈ positions, LoopPosition.IsRepresentable position
  nonIndexedIndependents : ∀ position ∈ model.nonIndexedIndependents,
    position.IsRepresentable
  temporaries : ∀ position ∈ model.temporaries, position.IsRepresentable

/-- A request whose numbers fit into words. -/
structure Request.IsRepresentable (request : Request) : Prop where
  options : request.options.IsRepresentable
  usage : request.usage.IsRepresentable
  loops : ∀ model ∈ request.loops, model.IsRepresentable

/-! ## Each record is read back -/

theorem Options.agree :
    Agree Options.encode Options.decode? Options.IsRepresentable where
  written options := isWritten_record _ <| by
    simp [agree_text.written, agree_word.written]
  read {options} fits := by
    have text (value : String) : text? (Json.ofText value) = some value :=
      agree_text.read trivial
    rw [Options.decode?, Options.encode,
      fields?_record (by decide) (by rfl)]
    simp [optional?, text, agree_word.read fits]
  sound {json options} found := by
    obtain ⟨fields, _, rest⟩ := Option.bind_eq_some_iff.mp found
    split at rest
    · simp only [Option.bind_eq_bind, Option.bind_eq_some_iff] at rest
      -- Only the last field is a number.
      obtain ⟨_, _, _, _, _, _, _, _, _, _, _, _, _, _, _, _, _, _,
        inputCount, read, made⟩ := rest
      cases made
      exact agree_word.of_optional? (by decide) read
    · cases rest

/-! ### The tables of a usage description -/

theorem agree_wordMap {α : Type} {write : α → Json}
    {read? : Json → Option α} {fits : α → Prop}
    (agree : Agree write read? fits) :
    Agree (ofMap write) (wordMap? read?) (IndexMap.Fits UInt64.size fits) :=
  agree.map UInt64.size

theorem Sparsity.agree_elements :
    Agree (ofMap (ofList ofNatural)) (wordMap? (list? word?))
      (IndexMap.Fits UInt64.size
        fun positions => ∀ position ∈ positions, position < UInt64.size) :=
  agree_wordMap agree_word.list

theorem Sparsity.agree_loopGroups :
    Agree (ofMap (ofMap (ofMap ofSet)))
      (map? UInt32.size (wordMap? (wordMap? set?)))
      (IndexMap.Fits UInt32.size <| IndexMap.Fits UInt64.size <|
        IndexMap.Fits UInt64.size IndexSet.Fits) :=
  (agree_wordMap (agree_wordMap agree_set)).map UInt32.size

theorem Sparsity.agree :
    Agree Sparsity.encode Sparsity.decode? Sparsity.IsRepresentable where
  written sparsity := isWritten_record _ <| by
    simp [agree_elements.written, agree_loopGroups.written,
      (agree_wordMap agree_set).written,
      (agree_wordMap agree_set.list).written,
      (agree_wordMap agree_boolean).written, agree_word.written]
  read {sparsity} fits := by
    rw [Sparsity.decode?, Sparsity.encode,
      fields?_record (by decide) (by rfl)]
    simp [optional?, required?, agree_elements.read fits.elements,
      agree_loopGroups.read fits.loopGroups,
      (agree_wordMap agree_set).read fits.rowElements,
      (agree_wordMap agree_set.list).read fits.locations,
      (agree_wordMap agree_boolean).read fits.ordered,
      agree_word.read fits.entryCount]
  sound {json sparsity} found := by
    obtain ⟨fields, _, rest⟩ := Option.bind_eq_some_iff.mp found
    split at rest
    · simp only [Option.bind_eq_bind, Option.bind_eq_some_iff] at rest
      obtain ⟨elements, readElements, loopGroups, readGroups, rowElements,
        readRows, locations, readLocations, ordered, readOrdered,
        entryCount, readCount, made⟩ := rest
      cases made
      have none {α : Type} (bound : Nat) (fits : α → Prop) :
          IndexMap.Fits bound fits ∅ := fun _ member => by cases member
      exact
        { elements := agree_elements.of_optional? (none _ _) readElements
          loopGroups := agree_loopGroups.of_optional? (none _ _) readGroups
          rowElements :=
            (agree_wordMap agree_set).of_optional? (none _ _) readRows
          locations :=
            (agree_wordMap agree_set.list).of_required? readLocations
          ordered := (agree_wordMap agree_boolean).of_required? readOrdered
          entryCount := agree_word.of_required? readCount }
    · cases rest

/-! ### Loop models -/

theorem LoopPosition.agree :
    Agree LoopPosition.encode LoopPosition.decode?
      LoopPosition.IsRepresentable where
  written position := isWritten_record _ <| by
    simp [agree_word.written]
  read {position} fits := by
    rw [LoopPosition.decode?, LoopPosition.encode,
      fields?_record (by decide) (by rfl)]
    simp [required?, agree_word.read fits.1, agree_word.read fits.2]
  sound {json position} found := by
    obtain ⟨fields, _, rest⟩ := Option.bind_eq_some_iff.mp found
    split at rest
    · simp only [Option.bind_eq_bind, Option.bind_eq_some_iff] at rest
      obtain ⟨tape, readTape, outer, readOuter, made⟩ := rest
      cases made
      exact ⟨agree_word.of_required? readTape,
        agree_word.of_required? readOuter⟩
    · cases rest

theorem IndexPattern.agree :
    Agree IndexPattern.encode IndexPattern.decode? fun _ => True where
  written pattern := isWritten_record _ <| by
    rw [List.forall_mem_singleton]
    exact isWritten_record _ (by simp [agree_signed.written])
  read {pattern} _ := by
    let coefficients := [ofSigned pattern.slope, ofSigned pattern.offset]
    have fields : fields? fieldNames (record fieldNames coefficients) =
        some (coefficients.map some) := fields?_record (by decide) (by rfl)
    have form : pattern.encode = object
        [(Spelling.encode formName.toList,
          record fieldNames coefficients)] := rfl
    have signed (value : Int64) : signed? (ofSigned value) = some value :=
      agree_signed.read trivial
    rw [form, IndexPattern.decode?]
    simp [fields, coefficients, required?, signed]
  sound _ := trivial

theorem LoopModel.agree :
    Agree LoopModel.encode LoopModel.decode? LoopModel.IsRepresentable where
  written model := isWritten_record _ <| by
    simp [agree_word.written, LoopPosition.agree.list.written,
      LoopPosition.agree.list.list.written, IndexPattern.agree.list.written]
  read {model} fits := by
    have patterns (values : List IndexPattern) :
        list? IndexPattern.decode? (ofList IndexPattern.encode values) =
          some values := IndexPattern.agree.list.read fun _ _ => trivial
    rw [LoopModel.decode?, LoopModel.encode,
      fields?_record (by decide) (by rfl)]
    simp [required?, agree_halfWord.read fits.id,
      agree_word.read fits.iterationCount, patterns,
      LoopPosition.agree.list.list.read fits.indexedIndependents,
      LoopPosition.agree.list.read fits.nonIndexedIndependents,
      LoopPosition.agree.list.read fits.temporaries]
  sound {json model} found := by
    obtain ⟨fields, _, rest⟩ := Option.bind_eq_some_iff.mp found
    split at rest
    · simp only [Option.bind_eq_bind, Option.bind_eq_some_iff] at rest
      obtain ⟨id, readId, iterationCount, readCount, indexed, readIndexed,
        nonIndexed, readNonIndexed, temporaries, readTemporaries,
        _, _, _, _, made⟩ := rest
      cases made
      exact
        { id := agree_halfWord.of_required? readId
          iterationCount := agree_word.of_required? readCount
          indexedIndependents :=
            LoopPosition.agree.list.list.of_required? readIndexed
          nonIndexedIndependents :=
            LoopPosition.agree.list.of_required? readNonIndexed
          temporaries :=
            LoopPosition.agree.list.of_required? readTemporaries }
    · cases rest

/-! ## Requests -/

namespace Request

theorem agree :
    Agree Request.encode Request.decode? Request.IsRepresentable where
  written request := isWritten_record _ <| by
    simp [Options.agree.written, Sparsity.agree.written,
      LoopModel.agree.list.written]
  read {request} fits := by
    rw [Request.decode?, Request.encode,
      fields?_record (by decide) (by rfl)]
    simp [optional?, required?, Options.agree.read fits.options,
      Sparsity.agree.read fits.usage, LoopModel.agree.list.read fits.loops]
  sound {json request} found := by
    obtain ⟨fields, _, rest⟩ := Option.bind_eq_some_iff.mp found
    split at rest
    · simp only [Option.bind_eq_bind, Option.bind_eq_some_iff] at rest
      obtain ⟨options, readOptions, usage, readUsage, loops, readLoops,
        made⟩ := rest
      cases made
      have standard : ({} : Options).inputCount < UInt64.size := by decide
      exact
        { options := Options.agree.of_optional? standard readOptions
          usage := Sparsity.agree.of_required? readUsage
          loops := LoopModel.agree.list.of_optional? (by simp) readLoops }
    · cases rest

theorem ofText_eq_ok_iff {text : String} {request : Request} :
    ofText text = .ok request ↔
      Json.parse? text >>= decode? = some request := by
  cases read : Json.parse? text >>= decode? <;> simp [ofText, read]

/-- A request that is read from a text is representable. -/
theorem isRepresentable_of_ofText {text : String} {request : Request}
    (read : ofText text = .ok request) : request.IsRepresentable := by
  obtain ⟨json, _, decoded⟩ :=
    Option.bind_eq_some_iff.mp (ofText_eq_ok_iff.mp read)
  exact agree.sound decoded

/-- A representable request is read back from its canonical text. -/
theorem ofText_canonicalText {request : Request}
    (fits : request.IsRepresentable) :
    ofText request.canonicalText = .ok request := by
  have parsed := Json.parse?_text (agree.written request)
  rw [ofText_eq_ok_iff, canonicalText, parsed, Option.bind_eq_bind,
    Option.bind_some]
  exact agree.read fits

/-- Representable requests with one canonical text are one request. -/
theorem canonicalText_eq_iff {first second : Request}
    (fitsFirst : first.IsRepresentable)
    (fitsSecond : second.IsRepresentable) :
    first.canonicalText = second.canonicalText ↔ first = second := by
  constructor
  · intro same
    have read := ofText_canonicalText fitsFirst
    rw [same, ofText_canonicalText fitsSecond] at read
    exact (Except.ok.inj read).symm
  · exact congrArg canonicalText

end Request

/-! ## What a digest is taken of -/

theorem toList_loop (bytes : ByteArray) (position : Nat)
    (before : List UInt8) :
    ByteArray.toList.loop bytes position before =
      before.reverse ++ bytes.data.toList.drop position := by
  fun_induction ByteArray.toList.loop bytes position before with
  | case1 position before inside ih =>
    have first : bytes.data.toList.drop position =
        bytes.get! position :: bytes.data.toList.drop (position + 1) := by
      rw [List.drop_eq_getElem_cons (by simpa using inside)]
      simp [ByteArray.get!, inside]
    simp [ih, first]
  | case2 position before outside =>
    rw [List.drop_of_length_le (by simpa using outside), List.append_nil]

/-- The bytes of a text determine the text. -/
theorem toList_toUTF8_inj {first second : String} :
    first.toUTF8.toList = second.toUTF8.toList ↔ first = second := by
  have bytes (text : String) :
      text.toUTF8.toList = text.toByteArray.data.toList :=
    toList_loop text.toByteArray 0 []
  rw [bytes, bytes, Array.toList_inj, ← ByteArray.ext_iff,
    String.toByteArray_inj]

namespace Request

/-- The bytes that the hash of a request is the digest of. -/
def hashedBytes (request : Request) : List UInt8 :=
  request.canonicalText.toUTF8.toList

theorem requestHash_ofGeneration (request : Request)
    (source : GeneratedSource) :
    (Provenance.ofGeneration request source).requestHash =
      String.ofList
        ((Sha256.digest request.hashedBytes).flatMap Sha256.hexOfByte) :=
  rfl

/-- The canonical text is a normal form.  A representable request is read back
from it, so it belongs to no other one.  For two texts that describe requests,
the canonical texts, and the bytes that are hashed, are equal exactly if the
requests are. -/
theorem canonicalText_normal_form :
    (∀ request : Request, request.IsRepresentable →
      ofText request.canonicalText = .ok request) ∧
    (∀ first second : Request,
      first.IsRepresentable → second.IsRepresentable →
        (first.canonicalText = second.canonicalText ↔ first = second)) ∧
    (∀ text other first second,
      ofText text = .ok first → ofText other = .ok second →
        (first.canonicalText = second.canonicalText ↔ first = second) ∧
          (first.hashedBytes = second.hashedBytes ↔ first = second)) ∧
    ∀ request source,
      (Provenance.ofGeneration request source).requestHash =
        String.ofList
          ((Sha256.digest request.hashedBytes).flatMap Sha256.hexOfByte) := by
  refine ⟨fun _ => ofText_canonicalText, fun _ _ => canonicalText_eq_iff, ?_,
    requestHash_ofGeneration⟩
  intro text other first second read readOther
  have equal := canonicalText_eq_iff (isRepresentable_of_ofText read)
    (isRepresentable_of_ofText readOther)
  exact ⟨equal, toList_toUTF8_inj.trans equal⟩

/-- A request with standard options and no loops. -/
def small : Request where
  usage :=
    { locations := IndexMap.ofList [(2, [IndexSet.ofList [0, 7]])]
      ordered := IndexMap.ofList [(2, false)]
      entryCount := 9 }

/-- A text of the request that has blanks, fields in another order, a field
that no request has, and members of a set out of order and twice. -/
def smallText : String :=
  "\x7b \"x\":[1.5], \"usage\":\x7b\"nnz\":9,\n" ++
    "\"ordered\":\x7b\"2\":false\x7d," ++
    "\"user_el_location\":\x7b\"2\":[[7,0,7]]\x7d\x7d\x7d"

/-- The request with a name that needs escapes, and with a loop. -/
def quoted : Request where
  options := { modelName := "a \"model\"\n\x01" }
  usage := small.usage
  loops :=
    [ { id := 7, iterationCount := 1
        indexedIndependents := [[⟨0, 5⟩]], nonIndexedIndependents := []
        temporaries := []
        independentPatterns := [⟨-1, 5⟩], dependentPatterns := [] } ]

theorem quoted_normal_form :
    small.IsRepresentable ∧ quoted.IsRepresentable ∧
      ofText smallText = .ok small ∧
      ofText quoted.canonicalText = .ok quoted ∧
      small.canonicalText ≠ quoted.canonicalText ∧
      small.hashedBytes ≠ quoted.hashedBytes := by
  have usage : small.usage.IsRepresentable :=
    ⟨by decide, by decide, by decide, by decide, by decide, by decide⟩
  have fits : small.IsRepresentable := ⟨by decide, usage, nofun⟩
  have loops : ∀ model ∈ quoted.loops, model.IsRepresentable :=
    List.forall_mem_singleton.mpr
      ⟨by decide, by decide, by decide, by decide, by decide⟩
  have fitsQuoted : quoted.IsRepresentable := ⟨by decide, usage, loops⟩
  have read : ofText smallText = .ok small := by decide +kernel
  have readQuoted := canonicalText_normal_form.1 quoted fitsQuoted
  have apart : small ≠ quoted := by decide
  have normal := canonicalText_normal_form.2.2.1 smallText
    quoted.canonicalText small quoted read readQuoted
  exact ⟨fits, fitsQuoted, read, readQuoted,
    mt (canonicalText_normal_form.2.1 small quoted fits fitsQuoted).mp apart,
    mt normal.2.mp apart⟩

end Request

end SparseLoop
