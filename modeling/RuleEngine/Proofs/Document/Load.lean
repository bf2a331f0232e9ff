import RuleEngine.Document.Load
import RuleEngine.Proofs.Json.Newline
import RuleEngine.Proofs.Text.Utf8

/-!
# Loading a document is compiling what its file holds

A file that can be read holds octets. Where they are UTF-8 text that denotes a value, loading the
file is compiling the value, with the rules or the error that this gives. Where they are not,
loading fails: with a definition error if the text is no JSON, but with a fault of the host if the
octets are no text at all, or if the text comes upon a whole number of too many digits (`Chokes`).
Nothing is said of texts that exceed what is modelled (`Exceeds`): those that escape half of a
surrogate pair alone, which no `String` holds, and those with more brackets inside each other than
the host's stack allows.

* `load_outcome`: these are all cases, whatever the octets are.
-/

namespace RuleEngine.Document

variable {files : Files} {path text : String} {bs : List UInt8} {v : Value} {f : Fault}
  {limit : Nat}

/-! ## Octets -/

/-- The octets are those of a text that denotes the value. -/
def Holds (bs : List UInt8) (v : Value) : Prop :=
  ∃ text, bs = Text.utf8Encode text ∧ Json.Denotes text.toList v

/-- Reading the octets stops short of JSON with this fault: they are those of no text, or of one
that comes upon a whole number of too many digits. -/
inductive Chokes (bs : List UInt8) : Fault → Prop where
  | undecodable (h : ¬ ∃ text, bs = Text.utf8Encode text) : Chokes bs .undecodable
  | longInteger {text : String} {digits : Nat} (htext : bs = Text.utf8Encode text)
      (h : Json.Stops text.toList (.longInteger digits)) : Chokes bs (.longInteger digits)

/-- The octets are those of a text that escapes half of a surrogate pair alone, or that comes upon a
bracket below as many others as the host can go through. -/
inductive Exceeds (limit : Nat) (bs : List UInt8) : Prop where
  | stray {text : String} (htext : bs = Text.utf8Encode text)
      (h : Json.Stops text.toList .loneSurrogate) : Exceeds limit bs
  | deep {text : String} (htext : bs = Text.utf8Encode text)
      (h : Json.Dives limit text.toList) : Exceeds limit bs

theorem holds_iff : Holds bs v ↔
    ∃ text, Text.utf8Decode? bs = some text ∧ Json.read text = .ok v := by
  simp only [Holds, Text.utf8Decode_eq_some, Json.read_eq_ok]

theorem undecodable_iff : (¬ ∃ text, bs = Text.utf8Encode text) ↔ Text.utf8Decode? bs = none := by
  simp only [← Text.utf8Decode_eq_some, Option.eq_none_iff_forall_ne_some, not_exists, ne_eq]

/-- A place is below no more brackets than the text in front of it has characters. -/
theorem depth_le_length {goal place : Json.Place} {depth : Nat} {t : List Char}
    (h : Json.Leads goal depth place t) : depth ≤ t.length := by
  induction h with
  | here => exact Nat.zero_le _
  | item _ ih => exact ih
  | array _ _ ih | object _ _ ih =>
    simp only [List.length_cons, List.length_append]
    omega
  | nextItem _ _ _ ih | entry _ _ ih | nextEntry _ _ _ _ ih =>
    simp only [List.length_append]
    omega

/-- A short text that is read, or that is malformed, does not exceed the limit. -/
theorem not_exceeds (hshort : text.toList.length ≤ limit)
    (hread : Json.read text ≠ .error .loneSurrogate) : ¬ Exceeds limit (Text.utf8Encode text) := by
  rintro (⟨htext, h⟩ | ⟨htext, ws, lead, depth, bracket, u, -, hlead, hdeep, -, hdive⟩)
  · obtain rfl := Text.utf8Encode_injective htext
    exact hread h.read_eq
  · obtain rfl := Text.utf8Encode_injective htext
    have := depth_le_length hlead
    simp only [hdive, List.length_append, List.length_cons] at hshort
    omega

/-! ## Files -/

/-- A readable file is read through its text, whose line ends do not matter. -/
theorem readFile_eq (hnul : '\x00' ∉ (normalPath path).toList)
    (hfile : files (normalPath path) = some bs) :
    readFile files path = match Text.utf8Decode? bs with
      | none => .error (.fault .undecodable)
      | some text => ofJson (normalPath path) text := by
  have hpath : (normalPath path).toList.contains '\x00' = false := by simpa using hnul
  unfold readFile
  simp only [hpath, hfile]
  cases Text.utf8Decode? bs with
  | none => rfl
  | some text => simp [ofJson, Json.read_universalNewlines]

/-- What a document declares compiles as the document does. So a document is compiled as it is
read. -/
theorem load_eq (files : Files) (path : String) :
    load files path = (readFile files path >>= fun v => (data v).compile) := rfl

section

variable (hnul : '\x00' ∉ (normalPath path).toList) (hfile : files (normalPath path) = some bs)

include hnul hfile

theorem Holds.load_eq (h : Holds bs v) : load files path = (data v).compile := by
  obtain ⟨text, hdecode, hread⟩ := holds_iff.mp h
  rw [Document.load_eq, readFile_eq hnul hfile, hdecode]
  simp only [ofJson, hread]
  rfl

theorem Chokes.load_eq (h : Chokes bs f) : load files path = .error (.fault f) := by
  rw [Document.load_eq, readFile_eq hnul hfile]
  cases h with
  | undecodable h =>
    rw [undecodable_iff.mp h]
    rfl
  | longInteger htext h =>
    rw [Text.utf8Decode_eq_some.mpr htext]
    simp only [ofJson, h.read_eq]
    rfl

theorem load_eq_malformed (hin : ¬ Exceeds limit bs) (h : ¬ ∃ v, Holds bs v)
    (hchokes : ¬ ∃ f, Chokes bs f) : load files path = malformed (.notJson (normalPath path)) := by
  rw [Document.load_eq, readFile_eq hnul hfile]
  cases hdecode : Text.utf8Decode? bs with
  | none => exact absurd ⟨_, .undecodable (undecodable_iff.mpr hdecode)⟩ hchokes
  | some text =>
    have htext := Text.utf8Decode_eq_some.mp hdecode
    cases hread : Json.read text with
    | ok v => exact absurd ⟨v, holds_iff.mpr ⟨text, hdecode, hread⟩⟩ h
    | error e =>
      cases e with
      | longInteger n =>
        have hstops := (Json.read_eq_stopped (by simp)).mp hread
        exact absurd ⟨_, .longInteger htext hstops⟩ hchokes
      | loneSurrogate =>
        exact absurd (.stray htext ((Json.read_eq_stopped (by simp)).mp hread)) hin
      | malformed =>
        simp only [ofJson, hread]
        rfl

end

theorem Chokes.not_holds (h : Chokes bs f) : ¬ ∃ v, Holds bs v := by
  rintro ⟨v, hv⟩
  cases h with
  | undecodable h =>
    obtain ⟨text, htext, -⟩ := hv
    exact h ⟨text, htext⟩
  | @longInteger text _ htext h =>
    obtain ⟨text', hdecode, hread⟩ := holds_iff.mp hv
    rw [Text.utf8Decode_eq_some.mpr htext] at hdecode
    cases hdecode
    cases h.read_eq.symm.trans hread

theorem not_holds_of_malformed (h : Json.read text = .error .malformed) :
    (¬ ∃ v, Holds (Text.utf8Encode text) v) ∧ ¬ ∃ f, Chokes (Text.utf8Encode text) f := by
  constructor
  · simp [holds_iff, Text.utf8Decode_utf8Encode, h]
  · rintro ⟨_, hundecodable | ⟨htext, hlong⟩⟩
    · exact hundecodable ⟨text, rfl⟩
    · obtain rfl := Text.utf8Encode_injective htext
      cases hlong.read_eq.symm.trans h

/-- Whatever octets a file holds, loading it is compiling the value that they write, if they are
UTF-8 text that denotes one. If not, it fails with a definition error that names the file, unless
the octets are no text or the text comes upon a whole number of too many digits. In these cases it
fails with a fault of the host. Texts that exceed what is modelled are left out. -/
theorem load_outcome (hnul : '\x00' ∉ (normalPath path).toList)
    (hfile : files (normalPath path) = some bs) (hin : ¬ Exceeds limit bs) :
    (∀ v, Holds bs v → load files path = (data v).compile) ∧
    ((¬ ∃ v, Holds bs v) → (¬ ∃ f, Chokes bs f) →
      load files path = malformed (.notJson (normalPath path))) ∧
    (∀ f, Chokes bs f → (¬ ∃ v, Holds bs v) ∧ load files path = .error (.fault f)) :=
  ⟨fun _ h => h.load_eq hnul hfile, load_eq_malformed hnul hfile hin,
    fun _ h => ⟨h.not_holds, h.load_eq hnul hfile⟩⟩

/-- One octet that is no character by itself holds no value, and loading it fails with a fault where
a definition error is due. -/
theorem load_octet : (¬ ∃ v, Holds [0xff] v) ∧
    load (fun _ => some [0xff]) "rules.json" = .error (.fault .undecodable) ∧
    ¬ ∃ e, load (fun _ => some [0xff]) "rules.json" = .error (.definition e) := by
  have hchokes : Chokes [0xff] .undecodable :=
    .undecodable (undecodable_iff.mpr (by decide +kernel))
  have hload : load (fun _ => some [0xff]) "rules.json" = .error (.fault .undecodable) :=
    hchokes.load_eq (by decide) rfl
  refine ⟨hchokes.not_holds, hload, ?_⟩
  rintro ⟨e, he⟩
  rw [hload] at he
  cases he

namespace Sample

/-- The text of a document, with the line ends of another host and a key that is given twice. -/
def written : String :=
  "[\r\n\x7b\"name\": \"draft\", \"when\": [\x7b\"kind\": \"guest\"\x7d],\r\n" ++
    "\"name\": \"welcome\"\x7d]\r\n"

def broken : String := "[1,"

end Sample

/-- The first file is compiled as the list of rules that it writes, the second one is no JSON, and
the third one is no text. -/
theorem load_outcome_documents :
    (∃ v rules, Holds (Text.utf8Encode Sample.written) v ∧ (data v).compile = .ok rules ∧
      load (fun _ => some (Text.utf8Encode Sample.written)) "./rules.json" = .ok rules ∧
      rules.map (·.name.text) = ["welcome"]) ∧
    load (fun _ => some (Text.utf8Encode Sample.broken)) "./rules.json" =
      malformed (.notJson "rules.json") ∧
    load (fun _ => some [0xff]) "./rules.json" = .error (.fault .undecodable) := by
  have hpath : normalPath "./rules.json" = "rules.json" := by decide +kernel
  have hnul : '\x00' ∉ (normalPath "./rules.json").toList := by rw [hpath]; decide
  refine ⟨?_, ?_, ?_⟩
  · have hd : (match Json.read Sample.written with
        | .ok v => ((data v).compile).toOption.map fun rules => rules.map (·.name.text)
        | .error _ => none) = some ["welcome"] := by
      decide +kernel
    cases hread : Json.read Sample.written with
    | error e => rw [hread] at hd; cases hd
    | ok v =>
      rw [hread] at hd
      obtain ⟨rules, hrules, hnames⟩ := Option.map_eq_some_iff.mp hd
      have hholds : Holds (Text.utf8Encode Sample.written) v := ⟨_, rfl, Json.read_eq_ok.mp hread⟩
      have hin : ¬ Exceeds 500 (Text.utf8Encode Sample.written) :=
        not_exceeds (by decide +kernel) (by rw [hread]; nofun)
      have hload : load (fun _ => some (Text.utf8Encode Sample.written)) "./rules.json" =
          (data v).compile := (load_outcome hnul rfl hin).1 v hholds
      rw [toOption_eq_some.mp hrules] at hload
      exact ⟨v, rules, hholds, toOption_eq_some.mp hrules, hload, hnames⟩
  · have hread : Json.read Sample.broken = .error .malformed := by
      have hd : (match Json.read Sample.broken with
        | .error e => some e
        | .ok _ => none) = some Json.ReadError.malformed := by
        decide +kernel
      cases hread : Json.read Sample.broken with
      | ok v => rw [hread] at hd; cases hd
      | error e => rw [hread] at hd; rw [Option.some.inj hd]
    obtain ⟨hholds, hchokes⟩ := not_holds_of_malformed hread
    have hin : ¬ Exceeds 500 (Text.utf8Encode Sample.broken) :=
      not_exceeds (by decide +kernel) (by rw [hread]; nofun)
    have hload : load (fun _ => some (Text.utf8Encode Sample.broken)) "./rules.json" =
        malformed (.notJson (normalPath "./rules.json")) :=
      (load_outcome hnul rfl hin).2.1 hholds hchokes
    rwa [hpath] at hload
  · have hnone := undecodable_iff.mpr (show Text.utf8Decode? [0xff] = none by decide +kernel)
    have hin : ¬ Exceeds 500 [0xff] := by
      rintro (⟨htext, -⟩ | ⟨htext, -⟩) <;> exact hnone ⟨_, htext⟩
    exact ((load_outcome hnul rfl hin).2.2 _ (.undecodable hnone)).2

end RuleEngine.Document
