import CloudWai.Base.Lines
import CloudWai.Grammar
import Mathlib.Data.List.TakeWhile

/-!
# What a command prints

`postgres-server.mjs` and `builder-server.mjs` run commands, and get what these print in
chunks, of two streams, in the order in which the chunks come. Either makes a string of each
chunk by itself. The one puts the strings together, whichever stream they are from, and
`backupDatabase` writes that to a file; the other splits each string at its newlines, and
logs what is not blank.

`backup_iff` and `logged_iff` say for which chunks the file is what `pg_dump` wrote, and
what is logged is the lines of the output.
-/

namespace CloudWai.Output

open Base Utf8

/-- The two streams of a child process. -/
inductive Stream where
  | stdout | stderr
deriving DecidableEq

/-- The chunks as they come. -/
abbrev Chunks := List (Stream × List UInt8)

/-- Those of one stream. -/
def chunksOf (stream : Stream) (data : Chunks) : List (List UInt8) :=
  (data.filter (·.1 = stream)).map (·.2)

/-- What was written to it. -/
def written (stream : Stream) (data : Chunks) : List UInt8 := (chunksOf stream data).flatten

/-- `buf.toString()` -/
def toText (buf : List UInt8) : String := String.ofList (decode buf)

/-- How a command ends: its exit code, or none if it was killed; or it could not be run; or it
took too long. -/
inductive Ending where
  | close (code : Option Nat)
  | error (error : String)
  | timeout

/-- What `run` resolves to. -/
structure Result where
  code : Nat
  out : String

/-! ## The backup -/

namespace Postgres

/-- `run` -/
def run (data : Chunks) (ending : Ending) : Result :=
  let out := data.foldl (fun out d => out ++ toText d.2) ""
  match ending with
  | .close code => ⟨code.getD 1, out⟩
  | .error error => ⟨127, out ++ error⟩
  | .timeout => ⟨124, s!"{out}\n[postgres-engine] command timed out"⟩

/-- `backupDatabase`, with what `pg_dump` did: the file it writes. -/
def backupDatabase (dump : Result) : Except String (List UInt8) :=
  if dump.code ≠ 0 then .error s!"the backup failed: {Grammar.trim dump.out}"
  else .ok (encode dump.out.toList)

end Postgres

/-- Octets that are UTF-8. -/
def IsUtf8 (buf : List UInt8) : Prop := ∃ s, buf = encode s

/-- **The condition**, for a backup. -/
def WholeChunks (data : Chunks) : Prop :=
  (∀ buf ∈ chunksOf .stdout data, IsUtf8 buf) ∧ ∀ buf ∈ chunksOf .stderr data, buf = []

section Backup

variable {data : Chunks} {buf : List UInt8}

theorem isUtf8_iff : IsUtf8 buf ↔ encode (decode buf) = buf := by
  constructor
  · intro h
    obtain ⟨s, rfl⟩ := h
    rw [decode_encode]
  · exact fun h => ⟨decode buf, h.symm⟩

/-- What is made of all the chunks. -/
def recoded (data : Chunks) : List UInt8 := data.flatMap fun d => encode (decode d.2)

theorem encode_out (data : Chunks) :
    encode (data.foldl (fun out d => out ++ toText d.2) "").toList = recoded data := by
  have hfold : ∀ out : String, encode (data.foldl (fun out d => out ++ toText d.2) out).toList =
      encode out.toList ++ recoded data := by
    induction data with
    | nil => exact fun out => (List.append_nil _).symm
    | cons d data ih =>
      intro out
      have htext : (out ++ toText d.2).toList = out.toList ++ decode d.2 := by
        rw [String.toList_append]
        unfold toText
        rw [String.toList_ofList]
      rw [List.foldl_cons, ih, htext, encode_append, List.append_assoc]
      rfl
  exact hfold ""

theorem chunksOf_cons (stream : Stream) (d : Stream × List UInt8) : chunksOf stream (d :: data) =
    if d.1 = stream then d.2 :: chunksOf stream data else chunksOf stream data := by
  unfold chunksOf
  by_cases h : d.1 = stream
  · rw [if_pos h, List.filter_cons_of_pos (by simpa using h)]
    rfl
  · rw [if_neg h, List.filter_cons_of_neg (by simpa using h)]

theorem written_cons (stream : Stream) (d : Stream × List UInt8) : written stream (d :: data) =
    if d.1 = stream then d.2 ++ written stream data else written stream data := by
  unfold written
  rw [chunksOf_cons]
  by_cases h : d.1 = stream
  · rw [if_pos h, if_pos h, List.flatten_cons]
  · rw [if_neg h, if_neg h]

theorem mem_chunksOf {stream : Stream} : buf ∈ chunksOf stream data ↔ (stream, buf) ∈ data := by
  unfold chunksOf
  simp

theorem length_written_le : (written .stdout data).length ≤ (recoded data).length := by
  induction data with
  | nil => exact Nat.le_refl _
  | cons d data ih =>
    have hlength := length_le_encode_decode d.2
    have hrecoded : (recoded (d :: data)).length =
        (encode (decode d.2)).length + (recoded data).length := List.length_append
    rw [written_cons, hrecoded]
    split
    · rw [List.length_append]
      omega
    · omega

/-- No chunk can make up for what another has lost: each is as long as it was, at least. -/
theorem recoded_iff : recoded data = written .stdout data ↔ ∀ d ∈ data,
    if d.1 = .stdout then encode (decode d.2) = d.2 else d.2 = [] := by
  induction data with
  | nil => exact iff_of_true rfl fun _ h => absurd h List.not_mem_nil
  | cons d data ih =>
    have hlength := length_le_encode_decode d.2
    have hrest := @length_written_le data
    have hrecoded : recoded (d :: data) = encode (decode d.2) ++ recoded data := rfl
    rw [List.forall_mem_cons, ← ih, written_cons, hrecoded]
    split
    · constructor
      · intro h
        have hlen := congrArg List.length h
        rw [List.length_append, List.length_append] at hlen
        exact List.append_inj h (by omega)
      · intro h
        rw [h.1, h.2]
    · constructor
      · intro h
        have hlen := congrArg List.length h
        rw [List.length_append] at hlen
        have hnone : encode (decode d.2) = [] := List.eq_nil_of_length_eq_zero (by omega)
        rw [hnone] at h
        exact ⟨List.eq_nil_of_length_eq_zero (by omega), h⟩
      · intro h
        rw [h.1, h.2]
        rfl

/-- **The backup** is what `pg_dump` wrote exactly if every chunk of that is UTF-8 by itself
and there was nothing else to read. -/
theorem backup_iff (data : Chunks) :
    Postgres.backupDatabase (Postgres.run data (.close (some 0))) = .ok (written .stdout data) ↔
      WholeChunks data := by
  have hfile : Postgres.backupDatabase (Postgres.run data (.close (some 0))) = .ok (recoded data) :=
    congrArg Except.ok (encode_out data)
  rw [hfile, Except.ok.injEq, recoded_iff]
  unfold WholeChunks
  simp only [mem_chunksOf, isUtf8_iff]
  constructor
  · intro h
    exact ⟨fun buf hbuf => h _ hbuf, fun buf hbuf => h _ hbuf⟩
  · intro h d hd
    obtain ⟨stream, buf⟩ := d
    cases stream with
    | stdout => exact h.1 buf hd
    | stderr => exact h.2 buf hd

end Backup

/-! ## The builder's log -/

/-- `line.trim() !== ""` -/
def hasText (line : String) : Bool := Grammar.trim line != ""

/-- `text.split("\n")`, less what is blank. -/
def nonBlank (text : String) : List String :=
  ((Lines.split text.toList).map String.ofList).filter hasText

namespace Builder

/-- What `run` has collected: `onLine` is called for the lines of a build's command. -/
structure Collected where
  out : String := ""
  logged : List String := []

/-- `onData` -/
def onData (s : Collected) (buf : List UInt8) : Collected :=
  let text := toText buf
  { out := s.out ++ text, logged := s.logged ++ nonBlank text }

/-- `run`, up to the end. -/
def run (data : Chunks) : Collected := data.foldl (fun s d => onData s d.2) {}

end Builder

/-- **The condition**, for a log: a stream is cut only between characters, and no line is cut
that has something on either side, or is indented there or goes on blank. -/
def WholeLines (stream : Stream) (data : Chunks) : Prop :=
  Lines.EachCut (Lines.CutsLine Grammar.jsSpace) (chunksOf stream data)

section Logged

variable {data : Chunks}

/-- A text is trimmed to nothing if it is blank. -/
theorem trim_eq_empty_iff (l : List Char) :
    Grammar.trim (String.ofList l) = "" ↔ Lines.blank Grammar.jsSpace l = true := by
  have hnil : Grammar.trim (String.ofList l) = "" ↔
      (((l.dropWhile Grammar.jsSpace).reverse.dropWhile Grammar.jsSpace).reverse) = [] := by
    unfold Grammar.trim
    rw [String.toList_ofList, ← String.toList_inj, String.toList_ofList]
    rfl
  unfold Lines.blank
  rw [hnil, List.reverse_eq_nil_iff, List.dropWhile_eq_nil_iff, List.all_eq_true]
  constructor
  · intro h
    cases hrest : l.dropWhile Grammar.jsSpace with
    | nil => exact List.dropWhile_eq_nil_iff.mp hrest
    | cons c rest =>
      -- what is left begins with what is no space
      have hspace := h c (by rw [hrest]; simp)
      have hnot := List.head?_dropWhile_not Grammar.jsSpace l
      rw [hrest] at hnot
      have hfalse : Grammar.jsSpace c = false := hnot
      exact absurd (hfalse.symm.trans hspace) Bool.false_ne_true
  · intro h c hc
    exact h c ((List.dropWhile_sublist _).subset (List.mem_reverse.mp hc))

theorem hasText_ofList (l : List Char) :
    hasText (String.ofList l) = !Lines.blank Grammar.jsSpace l := by
  unfold hasText
  cases hblank : Lines.blank Grammar.jsSpace l with
  | true => exact bne_eq_false_iff_eq.mpr ((trim_eq_empty_iff l).mpr hblank)
  | false =>
    refine bne_iff_ne.mpr fun h => ?_
    rw [(trim_eq_empty_iff l).mp h] at hblank
    cases hblank

theorem nonBlank_ofList (t : List Char) :
    nonBlank (String.ofList t) = (Lines.lines Grammar.jsSpace t).map String.ofList := by
  have hlines : hasText ∘ String.ofList = fun l => !Lines.blank Grammar.jsSpace l := by
    funext l
    rw [Function.comp_apply, hasText_ofList]
  unfold nonBlank Lines.lines
  rw [String.toList_ofList, List.filter_map, hlines]

/-- The lines of every chunk, in the order in which the chunks came. -/
def logged (data : Chunks) : List (List Char) :=
  data.flatMap fun d => Lines.lines Grammar.jsSpace (decode d.2)

theorem run_logged (data : Chunks) :
    (Builder.run data).logged = (logged data).map String.ofList := by
  have hfold : ∀ s : Builder.Collected,
      (data.foldl (fun s d => Builder.onData s d.2) s).logged =
        s.logged ++ (logged data).map String.ofList := by
    induction data with
    | nil => exact fun s => (List.append_nil _).symm
    | cons d data ih =>
      intro s
      have hnext : (Builder.onData s d.2).logged = s.logged ++
          (Lines.lines Grammar.jsSpace (decode d.2)).map String.ofList :=
        congrArg (s.logged ++ ·) (nonBlank_ofList (decode d.2))
      rw [List.foldl_cons, ih, hnext, List.append_assoc, ← List.map_append]
      rfl
  exact hfold {}

theorem merge_logged (data : Chunks) :
    Lines.Merge (Lines.recorded Grammar.jsSpace (chunksOf .stdout data))
      (Lines.recorded Grammar.jsSpace (chunksOf .stderr data)) (logged data) := by
  induction data with
  | nil => exact .nil
  | cons d data ih =>
    obtain ⟨stream, buf⟩ := d
    rw [chunksOf_cons, chunksOf_cons]
    cases stream with
    | stdout => exact ih.append_left _
    | stderr => exact ih.append_right _

/-- **The log** is the lines of the output, of both streams and each in its order, exactly if
no chunk breaks a character or a line. -/
theorem logged_iff (data : Chunks) :
    Lines.Merge (nonBlank (toText (written .stdout data))) (nonBlank (toText (written .stderr data)))
        (Builder.run data).logged ↔
      WholeLines .stdout data ∧ WholeLines .stderr data := by
  unfold toText WholeLines
  rw [nonBlank_ofList, nonBlank_ofList, run_logged,
    Lines.merge_map_iff fun _ => String.toList_ofList]
  exact Lines.recorded_iff (by decide) (merge_logged data)

end Logged

/-- **Chunks**, of any streams and in any order: when the backup is what was dumped, and when
what is logged is what was printed. -/
theorem chunks_harmless_iff (data : Chunks) :
    (Postgres.backupDatabase (Postgres.run data (.close (some 0))) = .ok (written .stdout data) ↔
      WholeChunks data) ∧
    (Lines.Merge (nonBlank (toText (written .stdout data)))
        (nonBlank (toText (written .stderr data))) (Builder.run data).logged ↔
      WholeLines .stdout data ∧ WholeLines .stderr data) :=
  ⟨backup_iff data, logged_iff data⟩

/-- A letter of two octets comes in two chunks. -/
def cutLetter : Chunks := [(.stdout, [0xC3]), (.stdout, [0xA9])]

/-- A notice comes with what is dumped. -/
def noticed : Chunks := [(.stdout, [0x2D, 0x2D]), (.stderr, [0x21])]

/-- A line comes in two chunks. -/
def cutLine : Chunks := [(.stdout, [0x6F]), (.stdout, [0x6B, 0x0A])]

theorem cut_chunks_differ :
    Postgres.backupDatabase (Postgres.run cutLetter (.close (some 0))) ≠
        .ok (written .stdout cutLetter) ∧
      Postgres.backupDatabase (Postgres.run noticed (.close (some 0))) ≠
        .ok (written .stdout noticed) ∧
      ¬ Lines.Merge (nonBlank (toText (written .stdout cutLine)))
        (nonBlank (toText (written .stderr cutLine))) (Builder.run cutLine).logged := by
  refine ⟨by decide +kernel, by decide +kernel, fun h => ?_⟩
  exact absurd h.length (by decide +kernel)

end CloudWai.Output
