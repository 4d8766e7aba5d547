import KeyedSeries.Failure
import KeyedSeries.OrderedMap
import KeyedSeries.Toml.Tree
import KeyedSeries.Unicode.Property

/-!
# Configurations

An engine is told where its data lie, whether it may write, and how history
files are cut. A configuration comes from parameters
(`KeyedSeries.Config.ofParameters`) or from a document
(`KeyedSeries.Config.ofToml`); what it does not say has a default.
-/

namespace KeyedSeries

/-- How an engine is set up. -/
structure Config where
  /-- The root of the data that the engine manages. -/
  dir : Option FilePath := none
  /-- The root of the history, data that were there before. -/
  historyDir : Option FilePath := none
  /-- Whether the engine refuses to write. -/
  readOnly : Bool := false
  /-- Whether there is a history. -/
  hasHistory : Bool := false
  /-- How many bytes of a history file one record holds. -/
  chunkSize : Nat := 1048576
  deriving DecidableEq, Repr

namespace Config

/-- Sizes are below this number. -/
def sizeLimit : Nat := UInt64.size

/-- The size that a text writes: decimal digits, perhaps behind a plus sign. -/
def sizeOf? (text : String) : Option Nat :=
  let digits :=
    match text.toList with
    | '+' :: rest => rest
    | cs => cs
  let n := TomlScalar.numberOf 10 TomlScalar.isDecimal digits
  if digits.isEmpty || !digits.all TomlScalar.isDecimal || sizeLimit ≤ n then none else some n

/-- The configuration that parameters give. -/
def ofParameters (parameters : OrderedMap String String) (readOnly hasHistory : Bool) :
    Except Failure Config :=
  let config : Config :=
    { dir := (parameters.get? dirKey).map (⟨·⟩)
      historyDir := (parameters.get? historyKey).map (⟨·⟩)
      readOnly
      hasHistory }
  match parameters.get? chunkSizeKey with
  | none => .ok config
  | some raw =>
    match sizeOf? (Unicode.trimBlanks raw) with
    | some chunkSize => .ok { config with chunkSize }
    | none => .error (.config (.chunkSize raw))

/-! ### Documents -/

/-- The path under a key of a document, which has to be a text if it is there. -/
def path? (entries : TomlEntries) (key : String) : Option (Option FilePath) :=
  match entries.get? key with
  | none => some none
  | some (.text s) => some (some ⟨s⟩)
  | some _ => none

/-- The truth value under a key of a document. -/
def flag? (entries : TomlEntries) (key : String) (default : Bool) : Option Bool :=
  match entries.get? key with
  | none => some default
  | some (.scalar (.boolean b)) => some b
  | some _ => none

/-- The size under a key of a document. -/
def size? (entries : TomlEntries) (key : String) (default : Nat) : Option Nat :=
  match entries.get? key with
  | none => some default
  | some (.scalar (.integer i)) => if i < 0 then none else some i.toNat
  | some _ => none

/-- The configuration that the entries of a document give; entries of other names
do not matter. -/
def ofEntries? (entries : TomlEntries) : Option Config := do
  let config : Config := {}
  some
    { dir := ← path? entries dirKey
      historyDir := ← path? entries historyKey
      readOnly := ← flag? entries "is_read_only" config.readOnly
      hasHistory := ← flag? entries "has_data" config.hasHistory
      chunkSize := ← size? entries chunkSizeKey config.chunkSize }

/-- The configuration that a document gives. -/
def ofToml (text : String) : Except Failure Config :=
  match (TomlEntries.ofText? text).bind ofEntries? with
  | some config => .ok config
  | none => .error (.config .document)

end Config

end KeyedSeries
