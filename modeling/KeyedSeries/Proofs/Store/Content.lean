import Mathlib.Algebra.Group.Nat.Defs
import KeyedSeries.Proofs.Engine.Action
import KeyedSeries.Proofs.Store.Reading

/-!
# The content of a file, and reads of a part of it

Whatever ranges are asked for, in whatever order, **a read gives the records of the whole
content whose keys lie in some range**, by ascending key and each of them once
(`KeyedSeries.DirectoryStore.read_eq_within`). This holds of both kinds of files:

* a document is walked range by range, and a walk from a key to an earlier one would break
  down. Since the ranges are brought into their canonical form before, no walk does, and what
  the walks come to is one part after the other of the content
  (`KeyedSeries.DirectoryStore.walk?_normalize`);
* a file of the history is cut into chunks, all of one length but the last one, which may be
  shorter and is not empty (`KeyedSeries.DirectoryStore.isCut_chunks`). Their numbers are
  their keys.
-/

namespace KeyedSeries

/-! ### Cuts -/

/-- Pieces that a content is cut into: all have the same length but the last one, which may be
shorter and is not empty. -/
structure IsCut (size : Nat) (content : Bytes) (pieces : List Bytes) : Prop where
  /-- One behind the other they are the content. -/
  flatten : pieces.flatten = content
  /-- All but the last one have the length. -/
  length_eq : ∀ p ∈ pieces.dropLast, p.length = size
  /-- The last one is not empty. -/
  last_ne : ∀ p ∈ pieces.getLast?, p ≠ []
  /-- It is not longer. -/
  last_le : ∀ p ∈ pieces.getLast?, p.length ≤ size

namespace IsCut

variable {size : Nat} {content : Bytes} {pieces : List Bytes}

theorem nil (size : Nat) : IsCut size [] [] := ⟨rfl, nofun, nofun, nofun⟩

/-- One piece more before the others, of the length of a piece that is not the last one if
there are others. -/
theorem cons (h : IsCut size content pieces) {p : Bytes} (hne : p ≠ []) (hle : p.length ≤ size)
    (heq : pieces ≠ [] → p.length = size) : IsCut size (p ++ content) (p :: pieces) := by
  cases pieces with
  | nil => exact ⟨by rw [← h.flatten]; rfl, nofun, by simpa using hne, by simpa using hle⟩
  | cons q qs =>
    refine ⟨by rw [List.flatten_cons, h.flatten], ?_, ?_, ?_⟩
    · rw [List.dropLast_cons_cons]
      exact List.forall_mem_cons.mpr ⟨heq (List.cons_ne_nil q qs), h.length_eq⟩
    · rw [List.getLast?_cons_cons]
      exact h.last_ne
    · rw [List.getLast?_cons_cons]
      exact h.last_le

/-- No piece is empty. -/
theorem ne_nil (h : IsCut size content pieces) (hsize : 0 < size) {p : Bytes} (hp : p ∈ pieces) :
    p ≠ [] := by
  obtain ⟨init, last, rfl⟩ : ∃ init last, pieces = init ++ [last] :=
    ⟨pieces.dropLast, _, (List.dropLast_append_getLast (List.ne_nil_of_mem hp)).symm⟩
  rcases List.mem_append.mp hp with hp | hp
  · have hlength := h.length_eq p (by simpa using hp)
    exact List.ne_nil_of_length_pos (hlength.symm ▸ hsize)
  · exact h.last_ne p (by simpa using (List.mem_singleton.mp hp).symm)

/-- There are no more pieces than bytes. -/
theorem length_le (h : IsCut size content pieces) (hsize : 0 < size) :
    pieces.length ≤ content.length := by
  have hsum : ∀ {ps : List Bytes}, (∀ p ∈ ps, p ≠ []) → ps.length ≤ ps.flatten.length := by
    intro ps hps
    induction ps with
    | nil => exact Nat.le_refl 0
    | cons p ps ih =>
      obtain ⟨hp, hps⟩ := List.forall_mem_cons.mp hps
      have hpos := List.length_pos_iff.mpr hp
      have hle := ih hps
      rw [List.flatten_cons, List.length_cons, List.length_append]
      omega
  rw [← h.flatten]
  exact hsum fun p hp => h.ne_nil hsize hp

end IsCut

namespace DirectoryStore

open KeyRange

/-- **The chunks are a cut of the content.** -/
theorem isCut_chunks (size : Nat) {steps : Nat} {content : Bytes} (h : content.length ≤ steps) :
    IsCut (size + 1) content (chunks size steps content) := by
  induction steps generalizing content with
  | zero =>
    obtain rfl := List.length_eq_zero_iff.mp (Nat.le_zero.mp h)
    exact .nil _
  | succ steps ih =>
    cases content with
    | nil => exact .nil _
    | cons b rest =>
      have hlength : (b :: rest).length = rest.length + 1 := List.length_cons
      have hcut : IsCut (size + 1) ((b :: rest).drop (size + 1))
          (chunks size steps ((b :: rest).drop (size + 1))) := by
        refine ih ?_
        rw [List.length_drop]
        omega
      have hwhole := List.take_append_drop (size + 1) (b :: rest)
      rw [chunks]
      · conv => arg 2; rw [← hwhole]
        refine hcut.cons (by simp) (by rw [List.length_take]; omega) fun hmore => ?_
        -- More chunks come, and so this one is full.
        rw [List.length_take, Nat.min_eq_left]
        refine Nat.le_of_not_lt fun hshort => hmore ?_
        rw [List.drop_eq_nil_of_le (Nat.le_of_lt hshort)]
        cases steps <;> rfl
      · nofun

/-! ### The whole content -/

/-- The pieces of a file of the history as records, by their numbers. -/
def numbered (pieces : List Bytes) : List Record :=
  pieces.zipIdx.map fun (p, i) => ⟨Int64.ofNat i, .binary, .binary p⟩

/-- The keys go up, and so every record stands there once. -/
def Ascending (records : List Record) : Prop := records.Pairwise fun a b => a.key < b.key

theorem Ascending.within {records : List Record} (h : Ascending records)
    (ranges : List KeyRange) : Ascending (within ranges records) := h.filter _

/-- The records of a document go by their keys. -/
theorem ascending_recordsOfAll (doc : Document) : Ascending (recordsOfAll doc) := by
  refine List.pairwise_map.mpr (doc.records.ascending.imp fun h => ?_)
  exact Std.compare_eq_lt.mp h

/-- Numbers of less than 64 bits are in order as keys. -/
theorem ofNat_lt_ofNat {i j : Nat} (h : i < j) (hj : j < 2 ^ 63) :
    Int64.ofNat i < Int64.ofNat j := by
  rw [Int64.lt_iff_toInt_lt, Int64.toInt_ofNat_of_lt (Nat.lt_trans h hj),
    Int64.toInt_ofNat_of_lt hj]
  exact Int.ofNat_lt.mpr h

/-- The pieces of a file go by their numbers. -/
theorem ascending_numbered {pieces : List Bytes} (h : pieces.length ≤ 2 ^ 63) :
    Ascending (numbered pieces) := by
  have hnumbers : pieces.zipIdx.Pairwise fun a b => a.2 < b.2 := by
    rw [← List.pairwise_map (f := Prod.snd), List.zipIdx_map_snd]
    exact List.pairwise_lt_range'
  refine List.pairwise_map.mpr (hnumbers.imp_of_mem fun _ hb hlt => ofNat_lt_ofNat hlt ?_)
  have hbound := List.snd_lt_of_mem_zipIdx hb
  omega

/-! ### Walks -/

/-- The entries from one key on and before another one. To go on to an earlier key is no walk. -/
def between? (records : OrderedMap Key Value) (start stop : Key) : Option (List (Key × Value)) :=
  if stop < start then none
  else some (records.toList.filter fun (k, _) => start ≤ k && k < stop)

/-- The records that a walk by one range after the other comes to; `none` if it breaks down. -/
def walk? (doc : Document) : List KeyRange → Option (List Record)
  | [] => some []
  | r :: rest => do
    let entries ← between? doc.records r.start r.stop
    let others ← walk? doc rest
    some (entries.map (fun (k, v) => ⟨k, doc.dataType, v⟩) ++ others)

/-- A walk by ranges that are not turned around does not break down. -/
theorem walk?_of_start_le (doc : Document) {ranges : List KeyRange}
    (h : ∀ r ∈ ranges, r.start ≤ r.stop) :
    walk? doc ranges = some (ranges.flatMap fun range =>
      (doc.records.toList.filter fun (k, _) => range.contains k).map fun (k, v) =>
        ⟨k, doc.dataType, v⟩) := by
  induction ranges with
  | nil => rfl
  | cons r rest ih =>
    obtain ⟨hr, hrest⟩ := List.forall_mem_cons.mp h
    rw [walk?, between?, if_neg (Int64.not_lt.mpr hr), ih hrest]
    rfl

/-- **No walk by a canonical list breaks down**, and it comes to what is read. -/
theorem walk?_normalize (doc : Document) (ranges : List KeyRange) :
    walk? doc (normalize ranges) = some (recordsIn doc ranges) :=
  walk?_of_start_le doc fun r hr => Int64.le_of_lt ((canonical_normalize ranges).1 r hr)

/-! ### Reads -/

section Reads

variable {d : Disk} {file : FilePath} {content : Bytes}

/-- What can be read is a file and no directory. -/
theorem isFile_and_not_isDir_of_read (h : d.read file = .ok content) :
    d.isFile file = true ∧ d.isDir file = false := by
  rw [Disk.read] at h
  rw [Disk.isFile, Disk.isDir, Disk.dirPlace?]
  split at h <;> simp_all

/-- A read of a document gives its records in the ranges. -/
theorem readSeries_of_read {doc : Document} (h : d.read file = .ok content)
    (hdoc : Document.ofBytes? content = some doc) (ranges : List KeyRange) :
    readSeries d file none ranges =
      .ok [⟨file, doc.dataType, doc.tags, within ranges (recordsOfAll doc)⟩] := by
  rw [readSeries, load, (isFile_and_not_isDir_of_read h).2, h]
  simp only [Bool.false_eq_true, if_false, hdoc, recordsIn_eq_within]
  rfl

/-- A read of a file of the history gives its chunks in the ranges. -/
theorem readHistory_of_read (h : d.read file = .ok content) (chunkSize : Nat)
    (ranges : List KeyRange) :
    readHistory d chunkSize file ranges =
      .ok [⟨file, .binary, .empty,
        within ranges (numbered (chunks (chunkSize - 1) content.length content))⟩] := by
  rw [readHistory, if_pos (isFile_and_not_isDir_of_read h).1, h]
  rfl

end Reads

/-- **A read by ranges is the whole content, filtered by the keys.** From a file that can be
read, a store that is open gives one table, and stays as it is. Of a document it has the
records whose keys lie in some range, and no walk to them breaks down; of a file of the
history it has the chunks whose numbers lie in some range. They go by ascending keys, each of
them once: the numbers of the chunks do, since they are 64 bits long, unless the file is longer
than any memory. -/
theorem read_eq_within {d : Disk} {file : FilePath} {content : Bytes}
    (hread : d.read file = .ok content) {chunkSize : Nat} (hsize : 1 ≤ chunkSize)
    (ranges : List KeyRange) :
    (∀ doc, Document.ofBytes? content = some doc →
      walk? doc (normalize ranges) = some (within ranges (recordsOfAll doc)) ∧
      outcome ((store chunkSize).read file none ranges false) ⟨d, false⟩ =
        (.ok [⟨file, doc.dataType, doc.tags, within ranges (recordsOfAll doc)⟩], ⟨d, false⟩) ∧
      Ascending (within ranges (recordsOfAll doc))) ∧
    ∃ pieces, IsCut chunkSize content pieces ∧
      outcome ((store chunkSize).read file none ranges true) ⟨d, false⟩ =
        (.ok [⟨file, .binary, .empty, within ranges (numbered pieces)⟩], ⟨d, false⟩) ∧
      (content.length < 2 ^ 63 → Ascending (within ranges (numbered pieces))) := by
  refine ⟨fun doc hdoc => ⟨?_, ?_, (ascending_recordsOfAll doc).within ranges⟩, ?_⟩
  · rw [walk?_normalize, recordsIn_eq_within]
  · rw [outcome_read chunkSize file none ranges false rfl]
    exact congrArg (·, _) (readSeries_of_read hread hdoc ranges)
  · have hcut : IsCut chunkSize content (chunks (chunkSize - 1) content.length content) := by
      have hcut := isCut_chunks (chunkSize - 1) (Nat.le_refl content.length)
      rwa [Nat.sub_add_cancel hsize] at hcut
    refine ⟨_, hcut, ?_, fun hlength => ?_⟩
    · rw [outcome_read chunkSize file none ranges true rfl, if_pos rfl, Nat.max_eq_left hsize]
      exact congrArg (·, _) (readHistory_of_read hread chunkSize ranges)
    · have hpieces := hcut.length_le hsize
      exact (ascending_numbered (by omega)).within ranges

/-- A document with records under three keys. -/
def threeKeys : Document := ⟨.long, .empty, .ofList [(1, .long 5), (2, .long 6), (7, .long 8)]⟩

/-- A disk with the document in one file. -/
def oneFile : Disk := ⟨.ofList [(["a"], .file threeKeys.bytes)]⟩

/-- Ranges out of order, one in another, one empty and one turned around: by themselves no walk
could go by them. The file is read as a document, and as one of the history. -/
theorem read_eq_within_turnedRanges :
    let ranges : List KeyRange := [⟨7, 9⟩, ⟨2, 2⟩, ⟨9, 4⟩, ⟨0, 2⟩, ⟨1, 2⟩]
    oneFile.read ⟨"/a"⟩ = .ok threeKeys.bytes ∧
      Document.ofBytes? threeKeys.bytes = some threeKeys ∧ threeKeys.bytes.length < 2 ^ 63 ∧
      walk? threeKeys ranges = none ∧
      (outcome ((store 50).read ⟨"/a"⟩ none ranges false) ⟨oneFile, false⟩).1 =
        .ok [⟨⟨"/a"⟩, .long, .empty, [⟨1, .long, .long 5⟩, ⟨7, .long, .long 8⟩]⟩] ∧
      ∃ pieces, IsCut 50 threeKeys.bytes pieces ∧
        (outcome ((store 50).read ⟨"/a"⟩ none ranges true) ⟨oneFile, false⟩).1 =
          .ok [⟨⟨"/a"⟩, .binary, .empty, within ranges (numbered pieces)⟩] ∧
        Ascending (within ranges (numbered pieces)) := by
  intro ranges
  have hread : oneFile.read ⟨"/a"⟩ = .ok threeKeys.bytes := by decide +kernel
  have hdoc : Document.ofBytes? threeKeys.bytes = some threeKeys := by decide +kernel
  have hlength : threeKeys.bytes.length < 2 ^ 63 := by decide +kernel
  have hwithin : within ranges (recordsOfAll threeKeys) =
      [⟨1, .long, .long 5⟩, ⟨7, .long, .long 8⟩] := by decide +kernel
  have hsize : 1 ≤ 50 := by decide
  obtain ⟨hseries, pieces, hcut, hnumbered, hascending⟩ := read_eq_within hread hsize ranges
  have hrecords := congrArg Prod.fst (hseries threeKeys hdoc).2.1
  rw [hwithin] at hrecords
  exact ⟨hread, hdoc, hlength, by decide +kernel, hrecords, pieces, hcut,
    congrArg Prod.fst hnumbered, hascending hlength⟩

end DirectoryStore

end KeyedSeries
