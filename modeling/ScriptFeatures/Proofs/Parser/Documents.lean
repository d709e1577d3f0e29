import ScriptFeatures.Parser.Run
import ScriptFeatures.Proofs.Json.LineBreaks
import ScriptFeatures.Proofs.Parser.Blocks

/-!
Documents printed in a row. A parser that prints documents joined by a delimiter
gives for each of them what the document itself gives: without its line breaks
it is still read as the same descriptor, and it ends in a space or a closing
bracket (`Json.Reader.last_of_read`), so that no delimiter begins inside it.
-/

namespace ScriptFeatures

/-- The characters that keep a delimiter apart from the documents: spaces and
the brackets of lists and objects. -/
def structuralChars : List Char := ['\n', ' ', '\t', '\r', '\x7b', '\x7d', '[', ']']

namespace Descriptor

theorem shape_accept_ne_ok (v v' : Json.Value) : shape.accept v ≠ .ok v' := by
  intro h
  cases v <;> contradiction

theorem exists_read_of_mem {documents : List String} {descriptors : List Descriptor}
    (hread : documents.map read = descriptors.map .ok) {text : String} (htext : text ∈ documents) :
    ∃ d, read text = .ok d := by
  have hmem := List.mem_map_of_mem (f := read) htext
  rw [hread] at hmem
  obtain ⟨d, -, hd⟩ := List.mem_map.mp hmem
  exact ⟨d, hd.symm⟩

theorem read_unbroken {text : String} {d : Descriptor} (h : read text = .ok d) :
    read (Stream.unbroken text) = .ok d := by
  obtain ⟨v, hv, rfl⟩ := json_read_of_read h
  rw [read, Stream.unbroken, Json.read_filter hv]

theorem last_mem_structuralChars {text : String} {d : Descriptor} (h : read text = .ok d)
    {cs : List Char} {c : Char} (htext : text.toList = cs ++ [c]) : c ∈ structuralChars := by
  obtain ⟨v, hv, -⟩ := json_read_of_read h
  obtain ⟨cs', c', hsplit, hlast⟩ := Json.Reader.last_of_read shape_accept_ne_ok hv
  have hc : c' = c := List.singleton_inj.mp (List.append_inj' (hsplit.symm.trans htext) rfl).2
  subst hc
  rcases hlast with hspace | rfl | rfl
  · simp only [Json.Reader.isSpace, Bool.or_eq_true, beq_iff_eq] at hspace
    rcases hspace with ((rfl | rfl) | rfl) | rfl <;> decide
  · decide
  · decide

/-- A delimiter between documents does not begin inside one of them. -/
theorem clear_of_read {text : String} {d : Descriptor} (h : read text = .ok d)
    {delimiter : List Char} (hplain : ∀ c ∈ delimiter, c ∉ structuralChars)
    (habsent : ¬ delimiter <:+: (Stream.unbroken text).toList) :
    Stream.Clear delimiter (Stream.unbroken text).toList := by
  refine Stream.clear_of_last habsent fun cs c hlast hmem => ?_
  exact hplain c hmem (last_mem_structuralChars (read_unbroken h) hlast)

end Descriptor

namespace Parser

theorem blockFeatures?_unbroken {text : String} {d : Descriptor}
    (h : Descriptor.read text = .ok d) :
    blockFeatures? (Stream.unbroken text) = d.frequencies.toOption := by
  rw [blockFeatures?, Descriptor.read_unbroken h]

theorem map_blockFeatures?_unbroken {documents : List String} {descriptors : List Descriptor}
    (hread : documents.map Descriptor.read = descriptors.map .ok) :
    documents.map (fun text => blockFeatures? (Stream.unbroken text)) =
      descriptors.map fun d => d.frequencies.toOption := by
  let features (result : Except Json.Error Descriptor) : Option Frequencies :=
    result.toOption.bind (·.frequencies.toOption)
  calc documents.map (fun text => blockFeatures? (Stream.unbroken text))
      = documents.map fun text => features (Descriptor.read text) := by
        refine List.map_congr_left fun text htext => ?_
        obtain ⟨d, hd⟩ := Descriptor.exists_read_of_mem hread htext
        rw [blockFeatures?_unbroken hd, hd]
        rfl
    _ = (documents.map Descriptor.read).map features := by
        rw [List.map_map]
        rfl
    _ = descriptors.map fun d => d.frequencies.toOption := by
        rw [hread, List.map_map]
        rfl

theorem blocksOf_toUTF8 (c : ParserConfig) (input text : String) :
    blocksOf c input text.toUTF8 = .ok (Stream.blocks text c.delimiter) := by
  have htext : String.fromUTF8? text.toUTF8 = some text := dif_pos text.isValidUTF8
  rw [blocksOf, htext]

theorem streamBlocks_of_run {p : Parser} {c : ParserConfig} {input text : String}
    {t t' : FileTree} {errors : ByteArray}
    (hrun : p (.parse c input none) t = (.ended (.code 0) text.toUTF8 errors, t')) :
    p.streamBlocks c input t = (.ok (Stream.blocks text c.delimiter), t') := by
  simp only [streamBlocks, run, hrun, Outcome.output, blocksOf_toUTF8]

/-- The documents that a parser prints in a row give what each of them gives. -/
theorem extractStream_documents (p : Parser) (c : ParserConfig) (input : String)
    (t t' : FileTree) (errors : ByteArray) {documents : List String}
    {descriptors : List Descriptor} (hdocuments : documents ≠ [])
    (hread : documents.map Descriptor.read = descriptors.map .ok)
    (hdelimiter : c.delimiter ≠ "") (hplain : ∀ ch ∈ c.delimiter.toList, ch ∉ structuralChars)
    (habsent : ∀ text ∈ documents, ¬ c.delimiter.toList <:+: text.toList.filter (· != '\n'))
    (hrun : p (.parse c input none) t =
      (.ended (.code 0) (c.delimiter.intercalate documents).toUTF8 errors, t')) :
    p.extractStream c input t =
      (.ok (descriptors.map fun d => d.frequencies.toOption), t') := by
  have hline : '\n' ∉ c.delimiter.toList := fun hmem => hplain '\n' hmem (by decide)
  have hclear : ∀ text ∈ documents,
      Stream.Clear c.delimiter.toList (Stream.unbroken text).toList := by
    intro text htext
    obtain ⟨d, hd⟩ := Descriptor.exists_read_of_mem hread htext
    refine Descriptor.clear_of_read hd hplain ?_
    rw [Stream.toList_unbroken]
    exact habsent text htext
  rw [extractStream, streamBlocks_of_run hrun,
    Stream.blocks_intercalate hdelimiter hline hdocuments hclear]
  simp only [List.map_map, Function.comp_def, map_blockFeatures?_unbroken hread]

/-- A document in list form; its program is the literal `true`. -/
def literalText : String :=
  "[\"Program\",\n[\x7b\"type\":\"Literal\",\n\"value\":true\n\x7d],\"script\",[0,4\n],[],[]]\n"

def literalDescriptor : Descriptor :=
  { kind := "Program"
    body := [.object [("type", .string "Literal"), ("value", .bool true)]]
    sourceType := "script"
    range := (0, 4)
    tokens := []
    comments := []
    leadingComments := [] }

theorem read_literalText : Descriptor.read literalText = .ok literalDescriptor := by
  rfl

theorem frequencies_literalDescriptor :
    literalDescriptor.frequencies = .ok (.ofList [⟨"Bool", .bool true⟩]) := by
  with_unfolding_all rfl

/-- A document whose root is of no known kind. -/
def unknownText : String :=
  "\x7b\"type\":\"Module\",\n\"body\":[],\"sourceType\":\"\",\"range\":[0,0\n]," ++
    "\"tokens\":[],\"comments\":[]\x7d"

def unknownDescriptor : Descriptor := ⟨"Module", [], "", (0, 0), [], [], []⟩

theorem read_unknownText : Descriptor.read unknownText = .ok unknownDescriptor := by
  rfl

theorem frequencies_unknownDescriptor : unknownDescriptor.frequencies.toOption = none := by
  with_unfolding_all rfl

/-- A parser that prints two documents on every source. -/
def printing : Parser := fun _ t =>
  (.ended (.code 0) ("##!!**##".intercalate [literalText, unknownText]).toUTF8 .empty, t)

theorem extractStream_printing :
    printing.extractStream {} "source.js" (.ofDirectory []) =
      (.ok [some (.ofList [⟨"Bool", .bool true⟩]), none], .ofDirectory []) := by
  have hread : [literalText, unknownText].map Descriptor.read =
      [literalDescriptor, unknownDescriptor].map .ok := by
    simp only [List.map_cons, List.map_nil, read_literalText, read_unknownText]
  have hplain : ∀ ch ∈ "##!!**##".toList, ch ∉ structuralChars := by simp [structuralChars]
  have habsent : ∀ text ∈ [literalText, unknownText],
      ¬ "##!!**##".toList <:+: text.toList.filter (· != '\n') := by decide +kernel
  rw [extractStream_documents printing {} "source.js" (.ofDirectory []) (.ofDirectory []) .empty
    (by simp) hread (by decide) hplain habsent rfl]
  rw [List.map_cons, List.map_cons, List.map_nil, frequencies_literalDescriptor,
    frequencies_unknownDescriptor]
  rfl

end Parser

end ScriptFeatures
