import Mathlib.Data.List.Chain
import Mathlib.Data.List.Forall2
import KeyedSeries.Plan.Description
import KeyedSeries.Proofs.FilePath
import KeyedSeries.Proofs.Plan.Traversal

/-!
# What a fingerprint is taken of

A fingerprint is taken of the operators of a tree and never of its ids: trees that are **alike**
(`KeyedSeries.PlanNode.Alike`), with the same operators up to what is shown of their filters, have
the same bytes (`KeyedSeries.PlanNode.Alike.fingerprintBytes_eq`).

The bytes are one text after the other, and only the numbers of inputs between them are not text.
Nothing tells where a text ends, so different trees may have the same bytes. They do not if the
trees are **clear** (`KeyedSeries.PlanNode.IsClear`): no text has a zero in it, no text of an
operator has the name of the text that follows it in it, and no comma is in a text that a comma
ends. **Clear trees with the same bytes are alike**
(`KeyedSeries.PlanNode.fingerprintBytes_eq_iff`): the bytes of a clear tree tell where they end,
whatever stands behind them (`KeyedSeries.PlanNode.alike_of_append_eq`).
-/

namespace KeyedSeries

/-! ### Bytes of texts -/

namespace Bytes

theorem ofText_append (s t : String) : ofText (s ++ t) = ofText s ++ ofText t := by
  simp [ofText]

theorem ofText_injective : Function.Injective ofText := fun s t h => by
  simpa using congrArg toText? h

theorem ofText_eq_flatMap (s : String) : ofText s = s.toList.flatMap ofChar := by
  have hs : s.toByteArray = s.toList.utf8Encode := by
    rw [← String.toByteArray_ofList, String.ofList_toList]
  rw [ofText, hs]
  simp only [List.utf8Encode, List.data_toByteArray]
  rfl

/-- Only the character zero has a zero among its bytes. -/
theorem zero_notMem_ofChar {c : Char} (h : c ≠ '\x00') : (0 : UInt8) ∉ ofChar c := by
  have hv : c.toNat ≠ 0 := fun hv => h (Char.toNat_inj.mp hv)
  have hval : c.val.toNat = c.toNat := rfl
  rw [ofChar, String.utf8EncodeChar]
  -- The first byte is the character itself or carries a mark, and so do all bytes behind it.
  split
  · simp [← UInt8.toNat_inj]
    omega
  · split
    · simp [← UInt8.toNat_inj]
      omega
    · split <;>
      · simp [← UInt8.toNat_inj]
        omega

theorem zero_notMem_ofText {s : String} (h : '\x00' ∉ s.toList) : (0 : UInt8) ∉ ofText s := by
  rw [ofText_eq_flatMap, List.mem_flatMap]
  rintro ⟨c, hc, hzero⟩
  exact zero_notMem_ofChar (fun heq => h (heq ▸ hc)) hzero

end Bytes

/-- The number of inputs is a byte and zeros, if it fits into a byte. -/
theorem XxHash.bytesOf_eq {k : Nat} (hk : k < 256) :
    bytesOf k.toUInt64 = k.toUInt8 :: 0 :: List.replicate 6 0 := by
  have hall : ∀ k < 256, bytesOf k.toUInt64 = k.toUInt8 :: 0 :: List.replicate 6 0 := by
    decide +kernel
  exact hall k hk

/-! ### Texts one after the other -/

/-- No end of the text is a start of it as well, but for the text itself. -/
def IsUnbordered (separator : List Char) : Prop :=
  ∀ k < separator.length, 0 < k → ¬ separator.drop k <+: separator

instance (separator : List Char) : Decidable (IsUnbordered separator) :=
  inferInstanceAs (Decidable (∀ k < separator.length, 0 < k → ¬ separator.drop k <+: separator))

/-- Where such a text stands behind a text without it, it does not stand anywhere earlier. -/
theorem IsUnbordered.eq_nil_of_append_eq {separator a c x y : List Char}
    (hs : IsUnbordered separator) (ha : ¬ separator <:+: a ++ c)
    (h : separator ++ x = c ++ (separator ++ y)) : c = [] := by
  rcases List.append_eq_append_iff.mp h with ⟨d, rfl, -⟩ | ⟨d, hd, hx⟩
  · exact absurd ⟨a, d, by simp⟩ ha
  · by_contra hc
    have hlen : separator.length = c.length + d.length := by rw [hd, List.length_append]
    have hcpos : 0 < c.length := List.length_pos_iff.mpr hc
    by_cases hdnil : d = []
    · rw [hdnil, List.append_nil] at hd
      exact ha ⟨a, [], by simp [hd]⟩
    · -- What is left of the earlier one would be an end and a start of it.
      have hdpos : 0 < d.length := List.length_pos_iff.mpr hdnil
      have hstart : d <+: separator :=
        List.prefix_of_prefix_length_le ⟨x, hx.symm⟩ (List.prefix_append _ _) (by omega)
      have hend : separator.drop c.length = d := by
        conv => lhs; rw [hd]
        exact List.drop_left
      exact hs c.length (by omega) hcpos (hend ▸ hstart)

/-- **A text ends where the next name begins**, if it does not have the name in it. -/
theorem IsUnbordered.append_inj {separator a b x y : List Char} (hs : IsUnbordered separator)
    (ha : ¬ separator <:+: a) (hb : ¬ separator <:+: b)
    (h : a ++ (separator ++ x) = b ++ (separator ++ y)) : a = b ∧ x = y := by
  rcases List.append_eq_append_iff.mp h with ⟨c, rfl, hc⟩ | ⟨c, rfl, hc⟩
  · have hnil := hs.eq_nil_of_append_eq hb hc
    subst hnil
    exact ⟨(List.append_nil a).symm, List.append_cancel_left hc⟩
  · have hnil := hs.eq_nil_of_append_eq ha hc
    subst hnil
    exact ⟨List.append_nil b, (List.append_cancel_left hc).symm⟩

/-- Names and texts, one after the other. -/
def writtenDetails : List (String × String) → String
  | [] => ""
  | (name, text) :: rest => name ++ text ++ writtenDetails rest

/-- The second name does not stand in the first text. -/
def IsApart (first second : String × String) : Prop :=
  ¬ second.1.toList <:+: first.2.toList

instance (first second : String × String) : Decidable (IsApart first second) :=
  inferInstanceAs (Decidable (¬ _))

/-- **Texts that are apart can be told from what is written**, if their names are known. -/
theorem writtenDetails_inj {l l' : List (String × String)} (hnames : l.map (·.1) = l'.map (·.1))
    (hunbordered : ∀ d ∈ l, IsUnbordered d.1.toList) (hl : l.IsChain IsApart)
    (hl' : l'.IsChain IsApart) (h : writtenDetails l = writtenDetails l') : l = l' := by
  induction l generalizing l' with
  | nil => exact (List.map_eq_nil_iff.mp hnames.symm).symm
  | cons d rest ih =>
    obtain ⟨d', rest', rfl⟩ := List.exists_cons_of_ne_nil (l := l') (by rintro rfl; cases hnames)
    obtain ⟨name, text⟩ := d
    obtain ⟨name', text'⟩ := d'
    obtain ⟨rfl, hrest⟩ : name = name' ∧ rest.map (·.1) = rest'.map (·.1) := by
      simpa using hnames
    have htexts : text.toList ++ (writtenDetails rest).toList =
        text'.toList ++ (writtenDetails rest').toList := by
      have hlist := congrArg String.toList h
      simpa [writtenDetails, String.toList_append] using hlist
    cases rest with
    | nil =>
      obtain rfl := List.map_eq_nil_iff.mp hrest.symm
      have htext : text = text' := String.toList_inj.mp (by simpa [writtenDetails] using htexts)
      rw [htext]
    | cons e more =>
      obtain ⟨e', more', rfl⟩ :=
        List.exists_cons_of_ne_nil (l := rest') (by rintro rfl; cases hrest)
      have hname : e.1 = e'.1 := (List.cons.inj hrest).1
      obtain ⟨hapart, hchain⟩ := List.isChain_cons_cons.mp hl
      obtain ⟨hapart', hchain'⟩ := List.isChain_cons_cons.mp hl'
      have hcut : text.toList ++ (e.1.toList ++ (e.2 ++ writtenDetails more).toList) =
          text'.toList ++ (e.1.toList ++ (e'.2 ++ writtenDetails more').toList) := by
        simpa [writtenDetails, String.toList_append, hname] using htexts
      have hsep : IsUnbordered e.1.toList := hunbordered e (by simp)
      obtain ⟨htext, hmore⟩ := hsep.append_inj hapart (by rw [hname]; exact hapart') hcut
      have hwritten : writtenDetails (e :: more) = writtenDetails (e' :: more') := by
        rw [writtenDetails, writtenDetails, hname, String.append_assoc, String.append_assoc,
          String.toList_inj.mp hmore]
      have htext' : text = text' := String.toList_inj.mp htext
      rw [htext',
        ih hrest (fun d hd => hunbordered d (List.mem_cons_of_mem _ hd)) hchain hchain' hwritten]

/-! ### What is shown of filters -/

/-- No tag filter is shown as an absent one. -/
theorem TagFilter.text_ne_none (f : TagFilter) : f.text ≠ "none" := by
  have hchar : ∃ c ∈ f.text.toList, c ∉ "none".toList := by
    cases f with
    | base name value => exact ⟨'=', by simp [text], by decide⟩
    | precise tags => exact ⟨'\x7b', by simp [text, tagsText], by decide⟩
    | withoutTag => exact ⟨' ', by decide, by decide⟩
    | and fs | or fs => exact ⟨'(', by simp [text], by decide⟩
  obtain ⟨c, hc, hnone⟩ := hchar
  exact fun h => hnone (h ▸ hc)

/-- No filter is shown as an absent one. -/
theorem Filter.text_ne_none (f : Filter) : f.text ≠ "none" := by
  have hchar : ∃ c ∈ f.text.toList, c ∉ "none".toList := by
    cases f with
    | key c k => exact ⟨'k', by simp [text], by decide⟩
    | cell path c v | cells left c right => exact ⟨' ', by simp [text], by decide⟩
    | const b =>
      cases b with
      | false => exact ⟨'f', by decide, by decide⟩
      | true => exact ⟨'t', by decide, by decide⟩
    | and fs | or fs | not f => exact ⟨'(', by simp [text], by decide⟩
  obtain ⟨c, hc, hnone⟩ := hchar
  exact fun h => hnone (h ▸ hc)

namespace Operator

/-- What is shown tells whether there is something to show, and the text of it. -/
theorem textOr_map_inj {α : Type} {text : α → String} (htext : ∀ a, text a ≠ "none")
    {a b : Option α} :
    textOr (a.map text) = textOr (b.map text) ↔ a.map text = b.map text := by
  cases a with
  | none =>
    cases b with
    | none => simp
    | some b => simpa [textOr] using (htext b).symm
  | some a =>
    cases b with
    | none => simpa [textOr] using htext a
    | some b => simp [textOr]

/-! ### Operators -/

/-- Operators of one kind with the same names, whose filters, tag filters and algorithms have the
same texts. -/
inductive Alike : Operator → Operator → Prop
  /-- Sources of one name. -/
  | source (name : String) : Alike (.source name) (.source name)
  /-- Projections to the same paths. -/
  | project (paths : List String) {tags tags' : Option TagFilter}
    (htags : tags.map (·.text) = tags'.map (·.text)) :
    Alike (.project paths tags) (.project paths tags')
  /-- Selections. -/
  | select {f f' : Filter} {tags tags' : Option TagFilter} (hf : f.text = f'.text)
    (htags : tags.map (·.text) = tags'.map (·.text)) : Alike (.select f tags) (.select f' tags')
  /-- Inner joins. -/
  | innerJoin (left right : String) {condition condition' : Option Filter}
    {tags tags' : Option TagFilter} {algorithm algorithm' : JoinAlgorithm}
    (hcondition : condition.map (·.text) = condition'.map (·.text))
    (htags : tags.map (·.text) = tags'.map (·.text))
    (halgorithm : algorithm.text = algorithm'.text) :
    Alike (.innerJoin left right condition tags algorithm)
      (.innerJoin left right condition' tags' algorithm')
  /-- Cross joins. -/
  | crossJoin (left right : String) : Alike (.crossJoin left right) (.crossJoin left right)
  /-- Outer joins. -/
  | outerJoin (side : OuterSide) (left right : String) {condition condition' : Option Filter}
    {tags tags' : Option TagFilter}
    (hcondition : condition.map (·.text) = condition'.map (·.text))
    (htags : tags.map (·.text) = tags'.map (·.text)) :
    Alike (.outerJoin side left right condition tags)
      (.outerJoin side left right condition' tags')

theorem Alike.refl (op : Operator) : Alike op op := by
  cases op with
  | source name => exact .source name
  | project paths tags => exact .project paths rfl
  | select f tags => exact .select rfl rfl
  | innerJoin left right condition tags algorithm => exact .innerJoin left right rfl rfl rfl
  | crossJoin left right => exact .crossJoin left right
  | outerJoin side left right condition tags => exact .outerJoin side left right rfl rfl

/-- No comma is in a name that a comma ends. -/
def HasNoComma : Operator → Prop
  | project paths _ => paths ≠ [""] ∧ ∀ path ∈ paths, ',' ∉ path.toList
  | innerJoin left .. | crossJoin left _ | outerJoin _ left .. => ',' ∉ left.toList
  | source _ | select .. => True

/-- The texts of the operator can be told apart where they stand one after the other. -/
structure IsClear (op : Operator) : Prop where
  /-- No text has a zero in it. -/
  noZero : ∀ d ∈ op.details, '\x00' ∉ d.2.toList
  /-- No text has the name of the next one in it. -/
  apart : op.details.IsChain IsApart
  /-- Names that are shown together can be told apart. -/
  noComma : op.HasNoComma

instance : (op : Operator) → Decidable op.HasNoComma
  | project paths _ =>
    inferInstanceAs (Decidable (paths ≠ [""] ∧ ∀ path ∈ paths, ',' ∉ path.toList))
  | innerJoin left .. | crossJoin left _ | outerJoin _ left .. =>
    inferInstanceAs (Decidable (',' ∉ left.toList))
  | source _ | select .. => isTrue trivial

instance (op : Operator) : Decidable op.IsClear :=
  decidable_of_iff
    ((∀ d ∈ op.details, '\x00' ∉ d.2.toList) ∧ op.details.IsChain IsApart ∧ op.HasNoComma)
    ⟨fun ⟨hzero, hapart, hcomma⟩ => ⟨hzero, hapart, hcomma⟩,
      fun h => ⟨h.noZero, h.apart, h.noComma⟩⟩

/-- What the bytes of the operator are the bytes of. -/
def written (op : Operator) : String := op.kind.name ++ writtenDetails op.details

theorem Alike.kind_eq {a b : Operator} (h : Alike a b) : a.kind = b.kind := by
  cases h <;> rfl

/-- **Like operators show the same.** -/
theorem Alike.details_eq {a b : Operator} (h : Alike a b) : a.details = b.details := by
  cases h <;> simp_all [details]

theorem Alike.written_eq {a b : Operator} (h : Alike a b) : a.written = b.written := by
  rw [written, written, h.kind_eq, h.details_eq]

/-- A text without comma ends at the first one. -/
theorem left_inj {left left' right right' : String} (hl : ',' ∉ left.toList)
    (hl' : ',' ∉ left'.toList) (h : left ++ "," ++ right = left' ++ "," ++ right') :
    left = left' ∧ right = right' := by
  have hcut :
      left.toList ++ ([','] ++ right.toList) = left'.toList ++ ([','] ++ right'.toList) := by
    simpa [String.toList_append] using congrArg String.toList h
  have hcomma : IsUnbordered [','] := by decide
  have hnotin {t : String} (ht : ',' ∉ t.toList) : ¬ [','] <:+: t.toList := fun hin =>
    ht (hin.subset (by simp))
  obtain ⟨hleft, hright⟩ := hcomma.append_inj (hnotin hl) (hnotin hl') hcut
  exact ⟨String.toList_inj.mp hleft, String.toList_inj.mp hright⟩

/-- Paths without commas can be told from what is shown of them. -/
theorem paths_inj {paths paths' : List String} (hne : paths ≠ [""]) (hne' : paths' ≠ [""])
    (hp : ∀ path ∈ paths, ',' ∉ path.toList) (hp' : ∀ path ∈ paths', ',' ∉ path.toList)
    (h : ",".intercalate paths = ",".intercalate paths') : paths = paths' := by
  have hcomma : "," = String.singleton ',' := by decide
  -- No path at all is shown as one empty path is.
  have hpieces {ps : List String} (hps : ∀ path ∈ ps, ',' ∉ path.toList) :
      pieces ',' (",".intercalate ps).toList = if ps = [] then [[]] else ps.map String.toList := by
    rw [hcomma, toList_intercalate_singleton]
    split
    · next hnil => rw [hnil]; rfl
    · next hcons =>
      refine pieces_joined (by simpa using hcons) fun p hmem => ?_
      obtain ⟨path, hpath, rfl⟩ := List.mem_map.mp hmem
      exact hps path hpath
  have heq := (hpieces hp).symm.trans (h ▸ hpieces hp')
  have hempty {ps : List String} (hps : ps.map String.toList = [[]]) : ps = [""] := by
    have hmap : ps.map String.toList = [""].map String.toList := hps
    exact List.map_injective_iff.mpr (fun _ _ => String.toList_inj.mp) hmap
  split at heq
  · next hnil =>
    split at heq
    · next hnil' => rw [hnil, hnil']
    · exact absurd (hempty heq.symm) hne'
  · split at heq
    · exact absurd (hempty heq) hne
    · exact List.map_injective_iff.mpr (fun _ _ => String.toList_inj.mp) heq

/-- **Clear operators that show the same are alike.** -/
theorem alike_of_details_eq {a b : Operator} (ha : a.HasNoComma) (hb : b.HasNoComma)
    (hkind : a.kind = b.kind) (h : a.details = b.details) : Alike a b := by
  have htagTexts {s t : Option TagFilter} := textOr_map_inj TagFilter.text_ne_none (a := s) (b := t)
  have hfilterTexts {s t : Option Filter} := textOr_map_inj Filter.text_ne_none (a := s) (b := t)
  cases a <;> cases b <;> cases hkind
  case source.source name name' =>
    obtain rfl : name = name' := by simpa [details] using h
    exact .source name
  case project.project paths tags paths' tags' =>
    obtain ⟨hpaths, htags⟩ : _ ∧ _ := by simpa [details] using h
    obtain rfl := paths_inj ha.1 hb.1 ha.2 hb.2 hpaths
    exact .project paths (htagTexts.mp htags)
  case select.select f tags f' tags' =>
    obtain ⟨hf, htags⟩ : _ ∧ _ := by simpa [details] using h
    exact .select hf (htagTexts.mp htags)
  case innerJoin.innerJoin left right condition tags algorithm left' right' _ _ _ =>
    obtain ⟨hnames, hcondition, htags, halgorithm⟩ : _ ∧ _ ∧ _ ∧ _ := by simpa [details] using h
    obtain ⟨rfl, rfl⟩ := left_inj ha hb hnames
    exact .innerJoin left right (hfilterTexts.mp hcondition) (htagTexts.mp htags) halgorithm
  case crossJoin.crossJoin left right left' right' =>
    obtain ⟨rfl, rfl⟩ := left_inj ha hb (by simpa [details] using h)
    exact .crossJoin left right
  case outerJoin.outerJoin side left right condition tags side' left' right' _ _ =>
    obtain ⟨hside, hnames, hcondition, htags⟩ : _ ∧ _ ∧ _ ∧ _ := by simpa [details] using h
    obtain ⟨rfl, rfl⟩ := left_inj ha hb hnames
    obtain rfl : side = side' := by revert hside; cases side <;> cases side' <;> decide
    exact .outerJoin side left right (hfilterTexts.mp hcondition) (htagTexts.mp htags)

/-- The names of the details go by the kind. -/
theorem names_details {a b : Operator} (h : a.kind = b.kind) :
    a.details.map (·.1) = b.details.map (·.1) := by
  cases a <;> cases b <;> first | rfl | cases h

/-- The names that details have. -/
def detailNames : List String := ["name", "paths", "tags", "filter", "prefixes", "alg", "type"]

theorem name_mem_of_mem_details {op : Operator} {d : String × String} (h : d ∈ op.details) :
    d.1 ∈ detailNames := by
  have hall : ∀ name ∈ op.details.map (·.1), name ∈ detailNames := by
    cases op <;> simp [details, detailNames]
  exact hall d.1 (List.mem_map_of_mem h)

theorem isUnbordered_of_mem_details {op : Operator} {d : String × String} (h : d ∈ op.details) :
    IsUnbordered d.1.toList := by
  have hall : ∀ name ∈ detailNames, IsUnbordered name.toList := by decide +kernel
  exact hall d.1 (name_mem_of_mem_details h)

/-- The name of a kind is told by its first two characters. -/
theorem kind_eq_of_append_eq {k k' : OperatorKind} {x y : String}
    (h : k.name ++ x = k'.name ++ y) : k = k' := by
  have htake {k : OperatorKind} {x : String} :
      (k.name ++ x).toList.take 2 = k.name.toList.take 2 := by
    rw [String.toList_append]
    exact List.take_append_of_le_length (by cases k <;> decide)
  have hfirst : k.name.toList.take 2 = k'.name.toList.take 2 := by
    rw [← htake (x := x), h, htake]
  revert hfirst
  cases k <;> cases k' <;> decide

/-- **Clear operators are alike just if the same is written of them.** -/
theorem written_eq_iff {a b : Operator} (ha : a.IsClear) (hb : b.IsClear) :
    a.written = b.written ↔ Alike a b := by
  refine ⟨fun h => ?_, Alike.written_eq⟩
  have hkind : a.kind = b.kind := kind_eq_of_append_eq h
  have hdetails : writtenDetails a.details = writtenDetails b.details := by
    have hlist := congrArg String.toList h
    rw [written, written, hkind, String.toList_append, String.toList_append] at hlist
    exact String.toList_inj.mp (List.append_cancel_left hlist)
  exact alike_of_details_eq ha.noComma hb.noComma hkind (writtenDetails_inj (names_details hkind)
    (fun d => isUnbordered_of_mem_details) ha.apart hb.apart hdetails)

theorem IsClear.zero_notMem_written {op : Operator} (h : op.IsClear) :
    '\x00' ∉ op.written.toList := by
  have hdetails : ∀ l : List (String × String),
      (∀ d ∈ l, d.1 ∈ detailNames ∧ '\x00' ∉ d.2.toList) →
        '\x00' ∉ (writtenDetails l).toList := by
    intro l hl
    induction l with
    | nil => decide
    | cons d rest ih =>
      obtain ⟨⟨hname, htext⟩, hrest⟩ := List.forall_mem_cons.mp hl
      have hnames : ∀ name ∈ detailNames, '\x00' ∉ name.toList := by decide +kernel
      simp [writtenDetails, String.toList_append, hnames d.1 hname, htext, ih hrest]
  have hkind : '\x00' ∉ op.kind.name.toList := by cases op.kind <;> decide
  have hrest := hdetails op.details fun d hd => ⟨name_mem_of_mem_details hd, h.noZero d hd⟩
  simp [written, String.toList_append, hkind, hrest]

end Operator

namespace PlanNode

/-! ### Trees -/

mutual

/-- The trees have like operators, node by node, whatever their ids are. -/
def Alike : PlanNode → PlanNode → Prop
  | ⟨_, op, inputs⟩, ⟨_, op', inputs'⟩ => op.Alike op' ∧ AllAlike inputs inputs'

/-- The trees of two lists are alike in turn. -/
def AllAlike : List PlanNode → List PlanNode → Prop
  | [], [] => True
  | n :: rest, m :: rest' => n.Alike m ∧ AllAlike rest rest'
  | [], _ :: _ | _ :: _, [] => False

end

mutual

/-- The tree with zero for every id. -/
def withoutIds : PlanNode → PlanNode
  | ⟨_, op, inputs⟩ => ⟨0, op, allWithoutIds inputs⟩

/-- The trees of a list with zero for every id. -/
def allWithoutIds : List PlanNode → List PlanNode
  | [] => []
  | n :: rest => n.withoutIds :: allWithoutIds rest

end

/-- All operators of the tree are clear, and no number of inputs takes more than a byte. -/
def IsClear (n : PlanNode) : Prop := ∀ m ∈ n.preorder, m.op.IsClear ∧ m.inputs.length < 256

instance (n : PlanNode) : Decidable n.IsClear :=
  inferInstanceAs (Decidable (∀ m ∈ n.preorder, m.op.IsClear ∧ m.inputs.length < 256))

theorem IsClear.input {n m : PlanNode} (h : n.IsClear) (hm : m ∈ n.inputs) : m.IsClear := by
  intro i hi
  refine h i ?_
  rw [preorder_eq]
  exact List.mem_cons_of_mem _ (mem_preorders.mpr ⟨m, hm, hi⟩)

theorem allAlike_iff {l l' : List PlanNode} : AllAlike l l' ↔ List.Forall₂ Alike l l' := by
  induction l generalizing l' with
  | nil => cases l' <;> simp [AllAlike]
  | cons n rest ih => cases l' <;> simp [AllAlike, ih]

theorem alike_mk {id id' : NodeId} {op op' : Operator} {inputs inputs' : List PlanNode} :
    Alike ⟨id, op, inputs⟩ ⟨id', op', inputs'⟩ ↔
      op.Alike op' ∧ List.Forall₂ Alike inputs inputs' := by
  rw [Alike, allAlike_iff]

/-- The bytes of a tree: of its operator, of the number of its inputs, and of these. -/
theorem fingerprintBytes_mk (id : NodeId) (op : Operator) (inputs : List PlanNode) :
    fingerprintBytes ⟨id, op, inputs⟩ =
      Bytes.ofText op.written ++
        (XxHash.bytesOf inputs.length.toUInt64 ++ allFingerprintBytes inputs) := by
  have hdetails (l : List (String × String)) : Bytes.ofText (writtenDetails l) =
      l.flatMap fun d => Bytes.ofText d.1 ++ Bytes.ofText d.2 := by
    induction l with
    | nil => rfl
    | cons d rest ih =>
      rw [writtenDetails, Bytes.ofText_append, Bytes.ofText_append, ih, List.flatMap_cons]
  rw [fingerprintBytes, Operator.written, Bytes.ofText_append, hdetails, List.append_assoc]

theorem allFingerprintBytes_eq (l : List PlanNode) :
    allFingerprintBytes l = l.flatMap fingerprintBytes := by
  induction l with
  | nil => rfl
  | cons n rest ih => rw [allFingerprintBytes, ih, List.flatMap_cons]

/-- **Like trees have the same bytes**, and so the same fingerprint. -/
theorem Alike.fingerprintBytes_eq {n m : PlanNode} (h : n.Alike m) :
    n.fingerprintBytes = m.fingerprintBytes := by
  induction n using inductionBelow generalizing m with
  | node n ih =>
    obtain ⟨id, op, inputs⟩ := n
    obtain ⟨id', op', inputs'⟩ := m
    obtain ⟨hop, hinputs⟩ := alike_mk.mp h
    have hbytes : inputs.flatMap fingerprintBytes = inputs'.flatMap fingerprintBytes := by
      have hbelow := fun n hn => @ih n (mem_preorders_of_mem hn)
      clear ih h
      induction hinputs with
      | nil => rfl
      | cons hn _ ihrest =>
        obtain ⟨hfirst, hrest⟩ := List.forall_mem_cons.mp hbelow
        rw [List.flatMap_cons, List.flatMap_cons, hfirst hn, ihrest hrest]
    rw [fingerprintBytes_mk, fingerprintBytes_mk, hop.written_eq, hinputs.length_eq,
      allFingerprintBytes_eq, allFingerprintBytes_eq, hbytes]

theorem allWithoutIds_eq (l : List PlanNode) : allWithoutIds l = l.map withoutIds := by
  induction l with
  | nil => rfl
  | cons n rest ih => rw [allWithoutIds, ih, List.map_cons]

/-- A tree is like itself, whatever its ids are. -/
theorem alike_withoutIds (n : PlanNode) : n.Alike n.withoutIds := by
  induction n using inductionBelow with
  | node n ih =>
    obtain ⟨id, op, inputs⟩ := n
    rw [withoutIds, alike_mk, allWithoutIds_eq, List.forall₂_map_right_iff, List.forall₂_same]
    exact ⟨.refl op, fun m hm => ih m (mem_preorders_of_mem hm)⟩

/-- **Ids have no part in the bytes.** -/
theorem fingerprintBytes_eq_of_withoutIds_eq {n m : PlanNode} (h : n.withoutIds = m.withoutIds) :
    n.fingerprintBytes = m.fingerprintBytes := by
  rw [n.alike_withoutIds.fingerprintBytes_eq, h, m.alike_withoutIds.fingerprintBytes_eq]

/-! ### Where the bytes of a tree end -/

/-- What may stand behind a tree: nothing, or the name of an operator. -/
def IsBehind (x : Bytes) : Prop := x.head? ≠ some 0

/-- Bytes without a zero end at the first zero. -/
theorem eq_of_append_zero_cons {a b x y : Bytes} (ha : 0 ∉ a) (hb : 0 ∉ b)
    (h : a ++ 0 :: x = b ++ 0 :: y) : a = b ∧ x = y := by
  induction a generalizing b with
  | nil =>
    cases b with
    | nil => exact ⟨rfl, (List.cons.inj h).2⟩
    | cons c b => exact absurd (List.cons.inj h).1 fun heq => hb (heq ▸ List.mem_cons_self)
  | cons c a ih =>
    cases b with
    | nil => exact absurd (List.cons.inj h).1 fun heq => ha (heq ▸ List.mem_cons_self)
    | cons d b =>
      obtain ⟨rfl, hrest⟩ := List.cons.inj h
      rw [List.mem_cons, not_or] at ha hb
      obtain ⟨rfl, hxy⟩ := ih ha.2 hb.2 hrest
      exact ⟨rfl, hxy⟩

/-- **The number of inputs is where the zeros begin**, or in front of them if it is not zero
itself. -/
theorem eq_of_append_bytesOf {a b x y : Bytes} {k k' : Nat} (hk : k < 256) (hk' : k' < 256)
    (ha : 0 ∉ a) (hb : 0 ∉ b) (hx : IsBehind x) (hy : IsBehind y)
    (h : a ++ (XxHash.bytesOf k.toUInt64 ++ x) = b ++ (XxHash.bytesOf k'.toUInt64 ++ y)) :
    a = b ∧ k = k' ∧ x = y := by
  have hbyte {k : Nat} (hk : k < 256) : k.toUInt8 = 0 ↔ k = 0 := by
    rw [← UInt8.toNat_inj]
    simp [Nat.mod_eq_of_lt hk]
  have hmem {a : Bytes} {k : Nat} (hk : k < 256) (ha : 0 ∉ a) (h0 : k ≠ 0) :
      0 ∉ a ++ [k.toUInt8] := by
    simp [ha, Ne.symm (mt (hbyte hk).mp h0)]
  -- One zero more would be the first byte of what stands behind.
  have hbehind {x y : Bytes} (hy : IsBehind y) :
      0 :: List.replicate 6 0 ++ x ≠ List.replicate 6 0 ++ y := by
    intro heq
    have hcut : List.replicate 6 0 ++ (0 :: x) = List.replicate 6 0 ++ y := heq
    exact hy (by rw [← List.append_cancel_left hcut]; rfl)
  rw [XxHash.bytesOf_eq hk, XxHash.bytesOf_eq hk'] at h
  by_cases h0 : k = 0 <;> by_cases h0' : k' = 0
  · subst h0 h0'
    obtain ⟨rfl, hrest⟩ := eq_of_append_zero_cons ha hb h
    exact ⟨rfl, rfl, List.append_cancel_left hrest⟩
  · subst h0
    have hcut : a ++ 0 :: (0 :: List.replicate 6 0 ++ x) =
        (b ++ [k'.toUInt8]) ++ 0 :: (List.replicate 6 0 ++ y) := by simpa using h
    exact absurd (eq_of_append_zero_cons ha (hmem hk' hb h0') hcut).2 (hbehind hy)
  · subst h0'
    have hcut : b ++ 0 :: (0 :: List.replicate 6 0 ++ y) =
        (a ++ [k.toUInt8]) ++ 0 :: (List.replicate 6 0 ++ x) := by simpa using h.symm
    exact absurd (eq_of_append_zero_cons hb (hmem hk ha h0) hcut).2 (hbehind hx)
  · have hcut : (a ++ [k.toUInt8]) ++ 0 :: (List.replicate 6 0 ++ x) =
        (b ++ [k'.toUInt8]) ++ 0 :: (List.replicate 6 0 ++ y) := by simpa using h
    obtain ⟨hab, hxy⟩ := eq_of_append_zero_cons (hmem hk ha h0) (hmem hk' hb h0') hcut
    obtain ⟨rfl, hbytes⟩ := List.append_inj' hab rfl
    have hkk : k.toUInt8 = k'.toUInt8 := by simpa using hbytes
    refine ⟨rfl, ?_, List.append_cancel_left hxy⟩
    simpa [Nat.mod_eq_of_lt hk, Nat.mod_eq_of_lt hk'] using congrArg UInt8.toNat hkk

/-- Behind a tree there is nothing, or another tree. -/
theorem isBehind_append {l : List PlanNode} {x : Bytes} (hx : IsBehind x) :
    IsBehind (l.flatMap fingerprintBytes ++ x) := by
  cases l with
  | nil => exact hx
  | cons n rest =>
    obtain ⟨id, op, inputs⟩ := n
    have hname : ∀ k : OperatorKind, ∃ c more, Bytes.ofText k.name = c :: more ∧ c ≠ 0 := by
      intro k
      cases k <;> exact ⟨_, _, rfl, by decide⟩
    obtain ⟨c, more, hc, hzero⟩ := hname op.kind
    rw [IsBehind, List.flatMap_cons, fingerprintBytes, hc]
    simpa using hzero

/-- **The bytes of a clear tree tell where they end**, and all of it but the ids. -/
theorem alike_of_append_eq {n m : PlanNode} (hn : n.IsClear) (hm : m.IsClear) {x y : Bytes}
    (hx : IsBehind x) (hy : IsBehind y)
    (h : n.fingerprintBytes ++ x = m.fingerprintBytes ++ y) : n.Alike m ∧ x = y := by
  induction n using inductionBelow generalizing m x y with
  | node n ih =>
    obtain ⟨id, op, inputs⟩ := n
    obtain ⟨id', op', inputs'⟩ := m
    obtain ⟨hop, hlen⟩ := hn _ (mem_preorder_self _)
    obtain ⟨hop', hlen'⟩ := hm _ (mem_preorder_self _)
    rw [fingerprintBytes_mk, fingerprintBytes_mk, allFingerprintBytes_eq, allFingerprintBytes_eq,
      List.append_assoc, List.append_assoc, List.append_assoc, List.append_assoc] at h
    obtain ⟨hwritten, hlength, hrest⟩ := eq_of_append_bytesOf hlen hlen'
      (Bytes.zero_notMem_ofText hop.zero_notMem_written)
      (Bytes.zero_notMem_ofText hop'.zero_notMem_written)
      (isBehind_append hx) (isBehind_append hy) h
    have halike := (Operator.written_eq_iff hop hop').mp (Bytes.ofText_injective hwritten)
    -- The inputs in turn: behind the bytes of one stand those of the others.
    have hinputs : ∀ {l l' : List PlanNode}, (∀ n ∈ l, n ∈ inputs) → (∀ m ∈ l', m ∈ inputs') →
        l.length = l'.length → l.flatMap fingerprintBytes ++ x = l'.flatMap fingerprintBytes ++ y →
          List.Forall₂ Alike l l' ∧ x = y := by
      intro l
      induction l with
      | nil =>
        intro l' _ _ hlen h
        obtain rfl := List.length_eq_zero_iff.mp hlen.symm
        exact ⟨.nil, h⟩
      | cons i rest ihrest =>
        intro l' hl hl' hlen h
        obtain ⟨i', rest', rfl⟩ := List.exists_cons_of_length_eq_add_one hlen.symm
        obtain ⟨hi, hmore⟩ := List.forall_mem_cons.mp hl
        obtain ⟨hi', hmore'⟩ := List.forall_mem_cons.mp hl'
        rw [List.flatMap_cons, List.flatMap_cons, List.append_assoc, List.append_assoc] at h
        obtain ⟨hfirst, h⟩ := ih i (mem_preorders_of_mem hi) (hn.input hi) (hm.input hi')
          (isBehind_append hx) (isBehind_append hy) h
        obtain ⟨hothers, hxy⟩ := ihrest hmore hmore' (Nat.succ.inj hlen) h
        exact ⟨.cons hfirst hothers, hxy⟩
    obtain ⟨hall, hxy⟩ := hinputs (fun _ h => h) (fun _ h => h) hlength hrest
    exact ⟨alike_mk.mpr ⟨halike, hall⟩, hxy⟩

/-- **Clear trees have the same bytes just if they are alike.** -/
theorem fingerprintBytes_eq_iff {n m : PlanNode} (hn : n.IsClear) (hm : m.IsClear) :
    n.fingerprintBytes = m.fingerprintBytes ↔ n.Alike m := by
  refine ⟨fun h => ?_, Alike.fingerprintBytes_eq⟩
  have hnil : IsBehind [] := by simp [IsBehind]
  exact (alike_of_append_eq hn hm hnil hnil (by rw [h])).1

end PlanNode

end KeyedSeries
