import SieveFilter.Proofs.FileTree.Places
import SieveFilter.Proofs.Incidence.Loading
import SieveFilter.Proofs.Stream.Splitting
import SieveFilter.Proofs.Text.Blanks
import SieveFilter.Proofs.Text.Bytes

/-!
# The division of a stream into files

A row is the place of an item in the stream, so what matters about files is the items that they give together.
Files whose line ends fall on their borders can be put together or apart, a path that cannot be opened gives
one item, and a file list gives the names on its lines, whatever blanks and blank lines it has.
-/

namespace SieveFilter.Stream

open Event (items)
open Text (AllBlank Trimmed bytes)

/-! ## Items -/

theorem items_append (first second : List Event) :
    items (first ++ second) = items first ++ items second :=
  List.filter_append _ _

/-- All that is read from a file is an item. -/
theorem items_lineEvents (lines : List (Except Fault String)) :
    items (lines.map lineEvent) = lines.map lineEvent := by
  refine List.filter_eq_self.mpr fun event hevent => ?_
  obtain ⟨line, -, rfl⟩ := List.mem_map.mp hevent
  cases line <;> rfl

section

variable {tree other : FileTree} {path : String} {contents : ByteArray} {cause : Fault}

theorem items_fileEvents (hopen : tree.open? path = .ok (.ok contents)) :
    items (fileEvents tree path) = (textLines contents).map lineEvent := by
  rw [fileEvents, hopen]
  exact items_lineEvents _

theorem items_fileEvents_of_error (hopen : tree.open? path = .error cause) :
    items (fileEvents tree path) = [.fault (cause.onPath path)] := by
  rw [fileEvents, hopen]
  rfl

theorem fileEvents_congr (hopen : other.open? path = tree.open? path) :
    fileEvents other path = fileEvents tree path := by
  rw [fileEvents, fileEvents, hopen]

/-- The items of some files are those of the first ones and then those of the others. -/
theorem items_ofFiles_append (tree : FileTree) (before after : List String) (reading : ℕ) :
    items (ofFiles tree (before ++ after) reading) =
      items (ofFiles tree before reading) ++ items (ofFiles tree after reading) := by
  rw [ofFiles, List.flatMap_append, items_append]
  rfl

theorem items_ofFiles_cons (tree : FileTree) (path : String) (after : List String) (reading : ℕ) :
    items (ofFiles tree (path :: after) reading) =
      items (fileEvents tree path) ++ items (ofFiles tree after reading) := by
  rw [ofFiles, List.flatMap_cons, items_append]
  rfl

theorem ofFiles_congr {paths : List String}
    (hsame : ∀ path ∈ paths, other.open? path = tree.open? path) :
    ofFiles other paths = ofFiles tree paths := by
  funext reading
  exact List.flatMap_congr fun path hpath => fileEvents_congr (hsame path hpath)

theorem textLines_append {first : ByteArray} (hfirst : Whole first.data.toList) (second : ByteArray) :
    textLines (first ++ second) = textLines first ++ textLines second := by
  rw [textLines, ByteArray.data_append, Array.toList_append, splitLines_append hfirst, List.map_append]
  rfl

/-- The items of a file with the given lines: those that a line feed ends lose a carriage return before it, and
what is left at the end is an item as it is. -/
theorem textLines_ended {lines : List (List UInt8)} {last : List UInt8}
    (hplain : ∀ line ∈ lines, 10 ∉ line) (hlast : 10 ∉ last)
    (hcontents : contents.data.toList = ended lines ++ last) :
    textLines contents =
      lines.map (decode ∘ withoutReturn) ++ if last = [] then [] else [decode last] := by
  rw [textLines, hcontents, splitLines_ended hplain, List.map_append, List.map_map]
  congr 1
  split
  next hnil => rw [hnil]; rfl
  next hsome => rw [splitLines_last hlast hsome]; rfl

end

/-! ## File lists -/

/-- The lines of a file list for the given names: each name is on a line of its own, with blanks around it or
not, and the other lines are blank. -/
inductive Listing : List (List Char) → List String → Prop
  | nil : Listing [] []
  | blank {line : List Char} {lines : List (List Char)} {names : List String} (hline : '\n' ∉ line)
      (hblank : AllBlank line) (hrest : Listing lines names) : Listing (line :: lines) names
  | name {line : List Char} {lines : List (List Char)} {name : String} {names : List String}
      (hline : '\n' ∉ line) (htrimmed : Trimmed line name.toList) (hname : name ≠ "")
      (hrest : Listing lines names) : Listing (line :: lines) (name :: names)

theorem Listing.plain {lines : List (List Char)} {names : List String} (h : Listing lines names) :
    ∀ line ∈ lines, '\n' ∉ line := by
  induction h with
  | nil => exact List.forall_mem_nil _
  | blank hline _ _ ih => exact List.forall_mem_cons.mpr ⟨hline, ih⟩
  | name hline _ _ _ ih => exact List.forall_mem_cons.mpr ⟨hline, ih⟩

theorem decode_bytes (text : List Char) : decode (bytes text) = .ok (String.ofList text) := by
  rw [decode, Text.fromUTF8?_bytes]

/-- The name on a line, if it is not blank. -/
def nameOn (line : List Char) : Option String :=
  if Text.trim line = [] then none else some (String.ofList (Text.trim line))

theorem Listing.filterMap_nameOn {lines : List (List Char)} {names : List String}
    (h : Listing lines names) : lines.filterMap nameOn = names := by
  induction h with
  | nil => rfl
  | blank _ hblank _ ih =>
    rw [List.filterMap_cons, nameOn, if_pos (Text.trim_eq_nil_iff.mpr hblank)]
    exact ih
  | @name line _ name _ _ htrimmed hname _ ih =>
    have htrim : Text.trim line = name.toList := Text.trim_eq_iff.mpr htrimmed
    have hsome : name.toList ≠ [] := by simpa using hname
    rw [List.filterMap_cons, nameOn, if_neg (htrim ▸ hsome), htrim, String.ofList_toList, ih]

/-- A carriage return is a blank, so the name on a line is the same without one at the end of the line. -/
theorem exists_withoutReturn (line : List Char) :
    ∃ text, withoutReturn (bytes line) = bytes text ∧ Text.trim text = Text.trim line := by
  by_cases hreturn : line.getLast? = some '\r'
  · obtain ⟨text, rfl⟩ := List.getLast?_eq_some_iff.mp hreturn
    refine ⟨text, ?_, ?_⟩
    · rw [Text.bytes_append]
      exact withoutReturn_concat _
    · have hblank : AllBlank ['\r'] := by
        intro c hc
        rw [List.mem_singleton.mp hc]
        decide
      exact (Text.trim_surrounded Text.allBlank_nil hblank text).symm
  · refine ⟨line, withoutReturn_eq_self ?_, rfl⟩
    rw [ne_eq, show (13 : UInt8) = UInt8.ofNat '\r'.toNat from rfl, Text.getLast?_bytes_iff (by decide)]
    exact hreturn

/-- The lines of a text are read as texts that differ from them by blanks at most; an empty last line is not
read. -/
theorem exists_texts {lines : List (List Char)} (hplain : ∀ line ∈ lines, '\n' ∉ line) :
    ∃ texts : List (List Char),
      (splitLines (bytes (['\n'].intercalate lines))).map decode = (texts.map String.ofList).map .ok ∧
      texts.filterMap nameOn = lines.filterMap nameOn := by
  induction lines with
  | nil => exact ⟨[], rfl, rfl⟩
  | cons line lines ih =>
    obtain ⟨hline, hlines⟩ := List.forall_mem_cons.mp hplain
    have hbytes : (10 : UInt8) ∉ bytes line := by
      rw [show (10 : UInt8) = UInt8.ofNat '\n'.toNat from rfl, Text.mem_bytes_iff (by decide)]
      exact hline
    cases lines with
    | nil =>
      rw [List.intercalate_singleton]
      by_cases hnil : line = []
      · exact ⟨[], by rw [hnil]; rfl, by rw [hnil]; rfl⟩
      · refine ⟨[line], ?_, rfl⟩
        rw [splitLines_last hbytes (Text.bytes_ne_nil hnil), List.map_singleton, decode_bytes]
        rfl
    | cons next lines =>
      obtain ⟨texts, hread, hnames⟩ := ih hlines
      obtain ⟨text, hreturn, htrim⟩ := exists_withoutReturn line
      refine ⟨text :: texts, ?_, ?_⟩
      · rw [List.intercalate_cons_cons, Text.bytes_append, Text.bytes_append, List.append_assoc]
        show (splitLines (bytes line ++ 10 :: bytes _)).map decode = _
        rw [splitLines_cons hbytes, List.map_cons, hread, hreturn, decode_bytes]
        rfl
      · rw [List.filterMap_cons, List.filterMap_cons, hnames]
        simp only [nameOn, htrim]

theorem mapM_id_ok (texts : List String) :
    (texts.map Except.ok).mapM id = (.ok texts : Except Fault (List String)) := by
  induction texts with
  | nil => rfl
  | cons text texts ih =>
    rw [List.map_cons, List.mapM_cons, ih]
    rfl

theorem filter_names (texts : List (List Char)) :
    ((texts.map String.ofList).map fun line => String.ofList (Text.trim line.toList)).filter (· != "") =
      texts.filterMap nameOn := by
  induction texts with
  | nil => rfl
  | cons text texts ih =>
    rw [List.map_cons, List.map_cons, List.filter_cons, ih, List.filterMap_cons, nameOn,
      String.toList_ofList]
    by_cases hnil : Text.trim text = []
    · simp [hnil]
    · simp [hnil]

/-- Reading a file list gives the names on its lines. -/
theorem Listing.listedPaths_eq {tree : FileTree} {list : String} {lines : List (List Char)}
    {names : List String} (h : Listing lines names)
    (hopen : tree.open? list = .ok (.ok (String.ofList (['\n'].intercalate lines)).toUTF8)) :
    listedPaths tree list = .ok names := by
  obtain ⟨texts, hread, hnames⟩ := exists_texts h.plain
  have hcontents : tree.read list = .ok (String.ofList (['\n'].intercalate lines)).toUTF8 := by
    rw [FileTree.read, hopen]
    rfl
  have hlines : (textLines (String.ofList (['\n'].intercalate lines)).toUTF8).mapM id =
      .ok (texts.map String.ofList) := by
    rw [textLines, Text.toList_toUTF8, hread, mapM_id_ok]
  simp only [listedPaths, hcontents, hlines, bind, Except.bind, pure, Except.pure, filter_names, hnames,
    h.filterMap_nameOn]

/-! ## Division -/

/-- The division of a stream into files.

* The items of a file are its lines.  A line feed ends a line, and a carriage return before it is dropped; what
  follows the last line feed is one more line if it is not empty.  A line that is not UTF-8 is a fault.
* Two files next to each other, of which the first is empty or ends with a line feed, have the same items in
  the same places as one file with the contents of both.
* A path that cannot be opened is one fault in its place, and the items of all other files are the same as
  without that path.
* A file list gives the names on its lines, so its source is that of the names. -/
theorem items_of_division (tree : FileTree) (before after : List String) (reading : ℕ) :
    (∀ path contents lines last, tree.open? path = .ok (.ok contents) →
      (∀ line ∈ lines, 10 ∉ line) → 10 ∉ last → contents.data.toList = ended lines ++ last →
      items (ofFiles tree [path] reading) =
        lines.map (fun line => lineEvent (decode (withoutReturn line))) ++
          if last = [] then [] else [lineEvent (decode last)]) ∧
    (∀ (other : FileTree) (first second whole : String) (firstContents secondContents : ByteArray),
      tree.open? first = .ok (.ok firstContents) → tree.open? second = .ok (.ok secondContents) →
      Whole firstContents.data.toList →
      other.open? whole = .ok (.ok (firstContents ++ secondContents)) →
      (∀ path ∈ before ++ after, other.open? path = tree.open? path) →
      items (ofFiles other (before ++ whole :: after) reading) =
        items (ofFiles tree (before ++ first :: second :: after) reading)) ∧
    (∀ path cause, tree.open? path = .error cause →
      items (ofFiles tree (before ++ path :: after) reading) =
          items (ofFiles tree before reading) ++
            .fault (cause.onPath path) :: items (ofFiles tree after reading) ∧
        items (ofFiles tree (before ++ after) reading) =
          items (ofFiles tree before reading) ++ items (ofFiles tree after reading)) ∧
    (∀ list lines names, Listing lines names →
      tree.open? list = .ok (.ok (String.ofList (['\n'].intercalate lines)).toUTF8) →
      (listedPaths tree list).map (ofFiles tree) = .ok (ofFiles tree names)) := by
  refine ⟨?_, ?_, ?_, ?_⟩
  · intro path contents lines last hopen hplain hlast hcontents
    rw [items_ofFiles_cons, items_fileEvents hopen, textLines_ended hplain hlast hcontents,
      List.map_append, List.map_map]
    show lines.map _ ++ _ ++ [] = _
    rw [List.append_nil]
    congr 1
    split <;> rfl
  · intro other first second whole firstContents secondContents hfirst hsecond hwhole hopen hsame
    obtain ⟨hbefore, hafter⟩ := List.forall_mem_append.mp hsame
    simp only [items_ofFiles_append, items_ofFiles_cons]
    rw [ofFiles_congr hbefore, ofFiles_congr hafter, items_fileEvents hopen, items_fileEvents hfirst,
      items_fileEvents hsecond, textLines_append hwhole, List.map_append, List.append_assoc]
  · intro path cause hopen
    refine ⟨?_, items_ofFiles_append tree before after reading⟩
    rw [items_ofFiles_append, items_ofFiles_cons, items_fileEvents_of_error hopen]
    rfl
  · intro list lines names hlisting hopen
    rw [hlisting.listedPaths_eq hopen]
    rfl

/-! ## Some small files -/

/-- A line that ends with a carriage return and a line feed, and one that is not a text. -/
def sampleFirst : ByteArray := ⟨#[49, 44, 13, 10, 255, 10]⟩

/-- One line, of which only the line feed is missing. -/
def sampleSecond : ByteArray := ⟨#[50, 44, 13]⟩

/-- Names with blanks around them, on lines that end in both ways. -/
def sampleList : List (List Char) :=
  ["  n\r".toList, "\t\r".toList, "a b ".toList, []]

/-- The same relations in two files and in one, and a list of names. -/
def sampleTree : FileTree :=
  ⟨[(["a b"], sampleFirst), (["b"], sampleSecond), (["c"], sampleFirst ++ sampleSecond),
    (["l"], (String.ofList (['\n'].intercalate sampleList)).toUTF8)], [], []⟩

theorem sample_opens :
    sampleTree.open? "a b" = .ok (.ok sampleFirst) ∧ sampleTree.open? "b" = .ok (.ok sampleSecond) ∧
      sampleTree.open? "c" = .ok (.ok (sampleFirst ++ sampleSecond)) ∧
      sampleTree.open? "l" = .ok (.ok (String.ofList (['\n'].intercalate sampleList)).toUTF8) ∧
      sampleTree.open? "n" = .error (.missing none) := by
  have hname : ∀ path ∈ ["a b", "b", "c", "l", "n"], FileTree.IsName path := by
    simp only [List.forall_mem_cons]
    refine ⟨?_, ?_, ?_, ?_, ?_, by simp⟩ <;> constructor <;> decide
  refine ⟨?_, ?_, ?_, ?_, ?_⟩
  · exact (hname _ (by simp)).open?_file rfl
  · exact (hname _ (by simp)).open?_file rfl
  · exact (hname _ (by simp)).open?_file rfl
  · exact (hname _ (by simp)).open?_file rfl
  · exact (hname _ (by simp)).open?_missing rfl

theorem listing_sample : Listing sampleList ["n", "a b"] := by
  have hreturn : AllBlank "\t\r".toList := Text.trim_eq_nil_iff.mp (by decide)
  refine .name (by decide) (Text.trim_eq_iff.mp (by decide)) (by decide) ?_
  refine .blank (by decide) hreturn ?_
  refine .name (by decide) (Text.trim_eq_iff.mp (by decide)) (by decide) ?_
  exact .blank (by decide) Text.allBlank_nil .nil

theorem items_of_division_sample :
    items (ofFiles sampleTree ["a b"] 0) = [.line "1,", .fault .notText] ∧
      items (ofFiles sampleTree ["n", "c"] 0) = items (ofFiles sampleTree ["n", "a b", "b"] 0) ∧
      items (ofFiles sampleTree ["a b", "n", "b"] 0) =
        items (ofFiles sampleTree ["a b"] 0) ++ .fault (.missing (some "n")) ::
          items (ofFiles sampleTree ["b"] 0) ∧
      (listedPaths sampleTree "l").map (ofFiles sampleTree) = .ok (ofFiles sampleTree ["n", "a b"]) := by
  obtain ⟨hfirst, hsecond, hwhole, hlist, hmissing⟩ := sample_opens
  obtain ⟨hlines, -, -, hlisted⟩ := items_of_division sampleTree [] [] 0
  refine ⟨?_, ?_, ?_, hlisted _ _ _ listing_sample hlist⟩
  · have hread := hlines "a b" sampleFirst [[49, 44, 13], [255]] [] hfirst (by decide) (by decide) rfl
    rw [hread]
    decide +kernel
  · exact (items_of_division sampleTree ["n"] [] 0).2.1 sampleTree _ _ _ _ _ hfirst hsecond (.inr rfl) hwhole
      (fun _ _ => rfl)
  · exact ((items_of_division sampleTree ["a b"] ["b"] 0).2.2.1 _ _ hmissing).1

end SieveFilter.Stream
