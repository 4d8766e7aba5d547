import KeyedSeries.OrderedMap

/-!
# Tags

A series carries tags, texts by name. A **tag filter** is a predicate over the
tags of a series; where none is given every series is accepted
(`KeyedSeries.TagFilter.accepts`).
-/

namespace KeyedSeries

/-- The tags of a series, by name. -/
abbrev Tags := OrderedMap String String

/-- A predicate over the tags of a series. -/
inductive TagFilter where
  /-- The tag has the value; the value `*` only asks for the tag to be there. -/
  | base (name value : String)
  /-- The tags are exactly these. -/
  | precise (tags : Tags)
  /-- There are no tags. -/
  | withoutTag
  /-- All of the filters accept. -/
  | and (filters : List TagFilter)
  /-- Some of the filters accepts. -/
  | or (filters : List TagFilter)

namespace TagFilter

/-- The value that stands for any value. -/
def anyValue : String := "*"

mutual

/-- Whether the filter accepts the tags. -/
def isMet (tags : Tags) : TagFilter → Bool
  | base name value =>
    match tags.get? name with
    | some actual => value == anyValue || actual == value
    | none => false
  | precise expected => expected == tags
  | withoutTag => tags.isEmpty
  | and filters => allMet tags filters
  | or filters => anyMet tags filters

/-- Whether all filters of a list accept the tags. -/
def allMet (tags : Tags) : List TagFilter → Bool
  | [] => true
  | f :: rest => f.isMet tags && allMet tags rest

/-- Whether some filter of a list accepts the tags. -/
def anyMet (tags : Tags) : List TagFilter → Bool
  | [] => false
  | f :: rest => f.isMet tags || anyMet tags rest

end

/-- Whether an optional filter accepts the tags; an absent one accepts all. -/
def accepts (filter : Option TagFilter) (tags : Tags) : Bool :=
  match filter with
  | none => true
  | some f => f.isMet tags

/-- Tags as they are shown, in braces. -/
def tagsText (tags : Tags) : String :=
  "\x7b" ++ ", ".intercalate (tags.toList.map fun (name, value) => name ++ "=" ++ value) ++ "\x7d"

mutual

/-- The filter as it is shown. -/
def text : TagFilter → String
  | base name value => name ++ "=" ++ value
  | precise tags => tagsText tags
  | withoutTag => "without tag"
  | and filters => "(" ++ " && ".intercalate (texts filters) ++ ")"
  | or filters => "(" ++ " || ".intercalate (texts filters) ++ ")"

/-- The filters of a list as they are shown. -/
def texts : List TagFilter → List String
  | [] => []
  | f :: rest => f.text :: texts rest

end

theorem allMet_eq_all (tags : Tags) (fs : List TagFilter) :
    allMet tags fs = fs.all (isMet tags) := by
  induction fs with
  | nil => simp [allMet]
  | cons f rest ih => simp [allMet, ih]

theorem anyMet_eq_any (tags : Tags) (fs : List TagFilter) :
    anyMet tags fs = fs.any (isMet tags) := by
  induction fs with
  | nil => simp [anyMet]
  | cons f rest ih => simp [anyMet, ih]

end TagFilter

end KeyedSeries
