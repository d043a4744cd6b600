import FormulaEngine.Proofs.Expr.Json
import FormulaEngine.Proofs.Json.Reading
import FormulaEngine.Source.Json

/-!
# Programs that are written and read

A program is decoded from its text as it was encoded, as long as the text does not nest too deeply
and every number in it is finite and is the double that its text stands for. Of the arrays and
objects that may nest, those around a value or an expression are as many as decoding takes off.
-/

namespace FormulaEngine

namespace ArgumentSource

theorem ofJson?_toJson (a : ArgumentSource) : ofJson? a.toJson = some a := rfl

theorem plain_toJson (a : ArgumentSource) : a.toJson.Plain :=
  .object (by simp [Json.Plain.string])

end ArgumentSource

namespace ConstantSource

variable {c : ConstantSource}

theorem ofJson?_toJson (hportable : c.value.Portable)
    (hdepth : c.toJson.nesting ≤ Json.greatestDepth - 2) : ofJson? c.toJson = some c := by
  have hvalue : Value.decode? (Json.greatestDepth - 3) c.value.toJson = some c.value :=
    hportable.decode?_toJson (Json.nesting_object_le_iff.mp hdepth ("value", _) (by simp))
  have hrecord : Json.record? ["name", "value"] c.toJson =
      some [some (.string c.name), some c.value.toJson] := Json.record?_object rfl (by decide)
  rw [ofJson?, hrecord]
  simp [Json.field, Json.string?, hvalue]

theorem plain_toJson (hportable : c.value.Portable) : c.toJson.Plain :=
  .object (by simpa [Json.Plain.string] using hportable.plain_toJson)

end ConstantSource

namespace FormulaSource

variable {f : FormulaSource}

theorem ofJson?_toJson (hportable : ∀ v ∈ f.expr.literals, v.Portable)
    (hdepth : f.toJson.nesting ≤ Json.greatestDepth - 4) : ofJson? f.toJson = some f := by
  have hexpr : Expr.decode? (Json.greatestDepth - 5) f.expr.toJson = some f.expr :=
    Expr.decode?_toJson (fun v hv => hportable v (Expr.mem_literals_iff.mpr hv))
      (Json.nesting_object_le_iff.mp hdepth ("expr", _) (by simp))
  have hrecord : Json.record? ["name", "expr", "exported"] f.toJson =
      some [some (.string f.name), some f.expr.toJson, some (.bool f.exported)] :=
    Json.record?_object rfl (by decide)
  rw [ofJson?, hrecord]
  simp [Json.field, Json.fieldOr, Json.string?, Json.bool?, hexpr]

theorem plain_toJson (hportable : ∀ v ∈ f.expr.literals, v.Portable) : f.toJson.Plain := by
  have hexpr := Expr.plain_toJson fun v hv => hportable v (Expr.mem_literals_iff.mpr hv)
  exact .object (by simpa [Json.Plain.string, Json.Plain.bool] using hexpr)

end FormulaSource

namespace ImportSource

variable {i : ImportSource}

theorem word?_kind (kind : ImportKind) :
    Json.word? false ImportKind.table (.string kind.name) = some kind := by
  cases kind <;> rfl

theorem ofJson?_toJson (i : ImportSource) : ofJson? i.toJson = some i := by
  have hpath : Json.listOf? Json.string? (.array (i.path.map .string)) = some i.path :=
    Json.listOf?_array fun _ _ => rfl
  have hrecord : Json.record? ["name", "path", "kind"] i.toJson =
      some [some (.string i.name), some (.array (i.path.map .string)),
        some (.string i.kind.name)] := Json.record?_object rfl (by decide)
  rw [ofJson?, hrecord]
  simp [Json.field, Json.string?, hpath, word?_kind]

theorem plain_toJson (i : ImportSource) : i.toJson.Plain := by
  have hpath : (Json.array (i.path.map .string)).Plain :=
    .array (List.forall_mem_map.mpr fun name _ => .string name)
  exact .object (by simpa [Json.Plain.string] using hpath)

end ImportSource

namespace ModuleSource

variable {m : ModuleSource}

def values (m : ModuleSource) : List Value := m.formulas.flatMap fun f => f.expr.literals

theorem ofJson?_toJson (hportable : ∀ v ∈ m.values, v.Portable)
    (hdepth : m.toJson.nesting ≤ Json.greatestDepth - 2) : ofJson? m.toJson = some m := by
  have hformula : ∀ f ∈ m.formulas, FormulaSource.ofJson? f.toJson = some f := by
    intro f hf
    have hnesting : f.toJson.nesting ≤ Json.greatestDepth - 4 :=
      Json.nesting_le_of_listed hdepth (.tail _ (.tail _ (.head _))) (List.mem_map_of_mem hf)
    exact FormulaSource.ofJson?_toJson
      (fun v hv => hportable v (List.mem_flatMap.mpr ⟨f, hf, hv⟩)) hnesting
  have hformulas := Json.listOf?_array hformula
  have himports : Json.listOf? ImportSource.ofJson? (.array (m.imports.map ImportSource.toJson)) =
      some m.imports := Json.listOf?_array fun i _ => i.ofJson?_toJson
  have hrecord : Json.record? ["name", "imports", "formulas"] m.toJson =
      some [some (.string m.name), some (.array (m.imports.map ImportSource.toJson)),
        some (.array (m.formulas.map FormulaSource.toJson))] :=
    Json.record?_object rfl (by decide)
  rw [ofJson?, hrecord]
  simp [Json.field, Json.fieldOr, Json.string?, himports, hformulas]

theorem plain_toJson (hportable : ∀ v ∈ m.values, v.Portable) : m.toJson.Plain := by
  have himports : (Json.array (m.imports.map ImportSource.toJson)).Plain :=
    .array (List.forall_mem_map.mpr fun i _ => i.plain_toJson)
  have hformulas : (Json.array (m.formulas.map FormulaSource.toJson)).Plain :=
    .array (List.forall_mem_map.mpr fun f hf => FormulaSource.plain_toJson
      fun v hv => hportable v (List.mem_flatMap.mpr ⟨f, hf, hv⟩))
  exact .object (by simpa [Json.Plain.string] using ⟨himports, hformulas⟩)

end ModuleSource

namespace ProgramSource

variable {p : ProgramSource}

/-- The values that a program is written with: those of its constants, and the literals. -/
def values (p : ProgramSource) : List Value :=
  p.constants.map (·.value) ++ p.modules.flatMap ModuleSource.values

theorem ofJson?_toJson (hportable : ∀ v ∈ p.values, v.Portable)
    (hdepth : p.toJson.nesting ≤ Json.greatestDepth) : ofJson? p.toJson = some p := by
  have harguments : Json.listOf? ArgumentSource.ofJson?
      (.array (p.arguments.map ArgumentSource.toJson)) = some p.arguments :=
    Json.listOf?_array fun a _ => a.ofJson?_toJson
  have hconstant : ∀ c ∈ p.constants, ConstantSource.ofJson? c.toJson = some c := by
    intro c hc
    have hnesting : c.toJson.nesting ≤ Json.greatestDepth - 2 :=
      Json.nesting_le_of_listed hdepth (.tail _ (.head _)) (List.mem_map_of_mem hc)
    exact ConstantSource.ofJson?_toJson
      (hportable c.value (List.mem_append_left _ (List.mem_map_of_mem hc))) hnesting
  have hmodule : ∀ m ∈ p.modules, ModuleSource.ofJson? m.toJson = some m := by
    intro m hm
    have hnesting : m.toJson.nesting ≤ Json.greatestDepth - 2 :=
      Json.nesting_le_of_listed hdepth (.tail _ (.tail _ (.head _))) (List.mem_map_of_mem hm)
    exact ModuleSource.ofJson?_toJson (fun v hv => hportable v
      (List.mem_append_right _ (List.mem_flatMap.mpr ⟨m, hm, hv⟩))) hnesting
  have hconstants := Json.listOf?_array hconstant
  have hmodules := Json.listOf?_array hmodule
  have hrecord : Json.record? ["arguments", "constants", "modules"] p.toJson =
      some [some (.array (p.arguments.map ArgumentSource.toJson)),
        some (.array (p.constants.map ConstantSource.toJson)),
        some (.array (p.modules.map ModuleSource.toJson))] :=
    Json.record?_object rfl (by decide)
  rw [ofJson?, hrecord]
  simp [Json.fieldOr, harguments, hconstants, hmodules]

theorem plain_toJson (hportable : ∀ v ∈ p.values, v.Portable) : p.toJson.Plain := by
  have harguments : (Json.array (p.arguments.map ArgumentSource.toJson)).Plain :=
    .array (List.forall_mem_map.mpr fun a _ => a.plain_toJson)
  have hconstants : (Json.array (p.constants.map ConstantSource.toJson)).Plain :=
    .array (List.forall_mem_map.mpr fun c hc => ConstantSource.plain_toJson
      (hportable c.value (List.mem_append_left _ (List.mem_map_of_mem hc))))
  have hmodules : (Json.array (p.modules.map ModuleSource.toJson)).Plain :=
    .array (List.forall_mem_map.mpr fun m hm => ModuleSource.plain_toJson fun v hv =>
      hportable v (List.mem_append_right _ (List.mem_flatMap.mpr ⟨m, hm, hv⟩)))
  exact .object (by simpa using ⟨harguments, hconstants, hmodules⟩)

/-- A program is decoded from its text as it was encoded. -/
theorem decode?_encode (hcanonical : ∀ v ∈ p.values, v.Canonical)
    (hfinite : ∀ v ∈ p.values, ∀ x ∈ v.numbers, x.isFinite)
    (hreads : ∀ v ∈ p.values, ∀ x ∈ v.numbers, Value.ReadsBack x)
    (hnesting : p.toJson.nesting ≤ 127) : decode? p.encode = some p := by
  have hportable : ∀ v ∈ p.values, v.Portable := fun v hv =>
    Value.Canonical.portable v (hcanonical v hv) fun x hx => ⟨hfinite v hv x hx, hreads v hv x hx⟩
  have hparse : Json.parse? p.encode = some p.toJson :=
    Json.parse?_compact (plain_toJson hportable)
  rw [decode?, hparse]
  exact ofJson?_toJson hportable hnesting

/-- A program with fields of one name, cases with and without a fallback, and empty lists. -/
def sampler : ProgramSource :=
  ⟨[⟨""⟩], [⟨"rates", .object [("low", .list [.number 1.5, .null]), ("up\n\x01", .object [])]⟩],
    [⟨"main", [⟨"r", ["rates", "low"], .formula⟩],
      [⟨"pick", .switch (.ident "r") [(.literal (.string "\"\\😀"), .list [])]
          (some (.literal (.number (-0.25)))), true⟩,
        ⟨"pair", .object [("a", .switch (.call "f" []) [] none), ("a", .literal (.bool true))],
          false⟩]⟩, ⟨"", [], []⟩]⟩

theorem decode?_encode_sampler : (∀ v ∈ sampler.values, v.Canonical) ∧
    (∀ v ∈ sampler.values, ∀ x ∈ v.numbers, x.isFinite) ∧
    (∀ v ∈ sampler.values, ∀ x ∈ v.numbers, Value.ReadsBack x) ∧
    sampler.toJson.nesting ≤ 127 ∧ decode? sampler.encode = some sampler := by
  have hascending : Fields.Ascending
      [("low", Value.list [.number 1.5, .null]), ("up\n\x01", .object [])] := by
    unfold Fields.Ascending
    decide
  have hcanonical : ∀ v ∈ sampler.values, v.Canonical := by
    refine List.forall_mem_cons.mpr ⟨⟨hascending, ⟨trivial, trivial, trivial⟩, ?_, trivial⟩, ?_⟩
    · exact ⟨.nil, trivial⟩
    · change ∀ v ∈ [_, _, _], _
      simp [Value.Canonical]
  have hfinite : ∀ v ∈ sampler.values, ∀ x ∈ v.numbers, x.isFinite := by
    decide +kernel
  have hreads : ∀ v ∈ sampler.values, ∀ x ∈ v.numbers, Value.ReadsBack x := by
    unfold Value.ReadsBack
    decide +kernel
  have hnesting : sampler.toJson.nesting ≤ 127 := by
    decide +kernel
  exact ⟨hcanonical, hfinite, hreads, hnesting,
    decode?_encode hcanonical hfinite hreads hnesting⟩

end ProgramSource

end FormulaEngine
