import Bridge.Lib.Csv
import Bridge.Lib.Utf16

/-!
# The learning data as CSV

`exportToCSV` writes the fields of a feedback as they are, with commas between them. Times and
numbers have no comma in them, nor a quote; but the task id and the name of the CLI are any strings
that came with a request. What is found in the file is what was exported iff all of these are plain
fields: `exportToCSV_iff`.
-/

namespace Bridge.Learning.LearningPersistence

open Lib Utf16 Csv List

def Printable (s : Units) : Prop := ∃ l : List Char, s = encode l ∧ l.all isTextdata = true

/-- How JavaScript writes numbers, and times with `toISOString`. -/
structure Format (N Time : Type) where
  number : N → Units
  -- neither zero nor `NaN`
  truthy : N → Bool
  iso : Time → Units
  printable_number : ∀ n, Printable (number n)
  printable_iso : ∀ t, Printable (iso t)

/-- A feedback of the history, as `load` finds it. -/
structure StoredFeedback (N Time : Type) where
  timestamp : Option Time
  taskId : Units
  success : Bool
  executionTime : N
  cli : Units
  userSatisfaction : Option N

variable {N Time : Type} (p : Format N Time)

def notAvailable : Units := ofString "N/A"

section Rows

variable (f : StoredFeedback N Time)

def timestampText : Units :=
  match f.timestamp with
  | some t => p.iso t
  | none => notAvailable

def successText : Units :=
  ofString (if f.success then "true" else "false")

/-- `feedback.userSatisfaction || 'N/A'` -/
def satisfactionText : Units :=
  match f.userSatisfaction with
  | some n => if p.truthy n then p.number n else notAvailable
  | none => notAvailable

def csvHeader : Units := ofString "Timestamp,TaskID,Success,ExecutionTime,CLI,UserSatisfaction\n"

def csvLine : Units :=
  timestampText p f ++ ofString "," ++ f.taskId ++ ofString "," ++ successText f ++ ofString "," ++
    p.number f.executionTime ++ ofString "," ++ f.cli ++ ofString "," ++ satisfactionText p f ++
      ofString "\n"

/-- `exportToCSV`: the text that is written; there may be no data. -/
def exportToCSV : Option (List (StoredFeedback N Time)) → Except String Units
  | none => .error "No learning data to export"
  | some history => .ok (history.foldl (fun csv f => csv ++ csvLine p f) csvHeader)

/-! ## What should be found -/

def headerRecord : Record :=
  ["Timestamp", "TaskID", "Success", "ExecutionTime", "CLI", "UserSatisfaction"].map String.toList

def RecordOf (r : Record) (f : StoredFeedback N Time) : Prop :=
  ∃ timestamp taskId success executionTime cli satisfaction,
    r = [timestamp, taskId, success, executionTime, cli, satisfaction] ∧
    encode taskId = f.taskId ∧ encode success = successText f ∧
    encode executionTime = p.number f.executionTime ∧ encode cli = f.cli

def Found (d : Dialect) (history : List (StoredFeedback N Time)) (csv : Units) : Prop :=
  ∃ records, parseFile d (decode csv) = some (headerRecord :: records) ∧
    List.Forall₂ (RecordOf p) records history

def Safe (d : Dialect) (s : Units) : Prop := WellFormed s ∧ ∀ c ∈ decode s, d.textdata c = true

theorem Printable.safe {s : Units} (h : Printable s) (d : Dialect) : Safe d s := by
  obtain ⟨l, rfl, hl⟩ := h
  refine ⟨⟨l, rfl⟩, ?_⟩
  rw [decode_encode]
  intro c hc
  exact d.ascii c (all_eq_true.mp hl c hc)

theorem printable_notAvailable : Printable notAvailable := ⟨['N', '/', 'A'], rfl, by decide⟩

theorem printable_timestampText : Printable (timestampText p f) := by
  unfold timestampText
  split
  · exact p.printable_iso _
  · exact printable_notAvailable

theorem printable_successText : Printable (successText f) := by
  unfold successText
  split
  · exact ⟨['t', 'r', 'u', 'e'], rfl, by decide⟩
  · exact ⟨['f', 'a', 'l', 's', 'e'], rfl, by decide⟩

theorem printable_satisfactionText : Printable (satisfactionText p f) := by
  unfold satisfactionText
  split
  · split
    · exact p.printable_number _
    · exact printable_notAvailable
  · exact printable_notAvailable

theorem decode_comma (s s' : Units) : decode (s ++ (ofString "," ++ s')) = decode s ++ ',' ::
    decode s' := by
  have hhead : (ofString "," ++ s') = 0x2C :: s' := rfl
  rw [hhead, decode_append (by rintro u ⟨⟩; decide), decode_cons (by decide)]
  rfl

theorem decode_newline (s s' : Units) : decode (s ++ (ofString "\n" ++ s')) = decode s ++ '\n' ::
    decode s' := by
  have hhead : (ofString "\n" ++ s') = 0x0A :: s' := rfl
  rw [hhead, decode_append (by rintro u ⟨⟩; decide), decode_cons (by decide)]
  rfl

theorem decode_csvLine (rest : Units) :
    decode (csvLine p f ++ rest) = decode (timestampText p f) ++ ',' :: (decode f.taskId ++ ',' ::
      (decode (successText f) ++ ',' :: (decode (p.number f.executionTime) ++ ',' ::
        (decode f.cli ++ ',' :: (decode (satisfactionText p f) ++ '\n' :: decode rest))))) := by
  simp [csvLine, append_assoc, decode_comma, decode_newline]

end Rows

variable {p} {d : Dialect} {f : StoredFeedback N Time}

def written (p : Format N Time) (f : StoredFeedback N Time) : Record :=
  [timestampText p f, f.taskId, successText f, p.number f.executionTime, f.cli, satisfactionText p
    f].map decode

theorem parse_csvLine (hid : Safe d f.taskId) (hcli : Safe d f.cli) (rest : Units) :
    parseFile d (decode (csvLine p f ++ rest)) =
      (parseFile d (decode rest)).map fun records => written p f :: records := by
  have htimestamp := ((printable_timestampText p f).safe d).2
  have hsuccess := ((printable_successText f).safe d).2
  have htime := ((p.printable_number f.executionTime).safe d).2
  have hsatisfaction := ((printable_satisfactionText p f).safe d).2
  rw [decode_csvLine, parseFile, parse_field htimestamp, parse_field hid.2, parse_field hsuccess,
    parse_field htime, parse_field hcli.2, parse_last hsatisfaction]
  rfl

theorem recordOf_written (hid : Safe d f.taskId) (hcli : Safe d f.cli) :
    RecordOf p (written p f) f := by
  have hencode : ∀ {s : Units}, WellFormed s → encode (decode s) = s := wellFormed_iff.mp
  exact ⟨_, _, _, _, _, _, rfl, hencode hid.1, hencode ((printable_successText f).safe d).1,
    hencode ((p.printable_number f.executionTime).safe d).1, hencode hcli.1⟩

/-- **A line that is found has plain fields.** -/
theorem safe_of_found {rest : Units} {r : Record} {records : List Record}
    (h : parseFile d (decode (csvLine p f ++ rest)) = some (r :: records)) (hr : RecordOf p r f) :
    Safe d f.taskId ∧ Safe d f.cli := by
  obtain ⟨timestamp, taskId, success, executionTime, cli, satisfaction, rfl, hid, hsuccess,
    htime, hcli⟩ := hr
  have hid' : decode f.taskId = taskId := by rw [← hid, decode_encode]
  have hsuccess' : decode (successText f) = success := by rw [← hsuccess, decode_encode]
  have htime' : decode (p.number f.executionTime) = executionTime := by rw [← htime, decode_encode]
  have hcli' : decode f.cli = cli := by rw [← hcli, decode_encode]
  rw [decode_csvLine, parseFile, parse_field ((printable_timestampText p f).safe d).2] at h
  have htimestamp : decode (timestampText p f) = timestamp := (cons_prefix_cons.mp (row_stays h)).1
  have hplain := textdata_of_found h ⟨[success, executionTime, cli, satisfaction], by
    rw [htimestamp, hid']; rfl⟩
  rw [parse_field hplain, parse_field ((printable_successText f).safe d).2,
    parse_field ((p.printable_number f.executionTime).safe d).2] at h
  have hplain' : ∀ c ∈ decode f.cli, d.textdata c = true :=
    textdata_of_found h ⟨[satisfaction], by rw [htimestamp, hid', hsuccess', htime', hcli']; rfl⟩
  exact ⟨⟨⟨taskId, hid.symm⟩, hplain⟩, ⟨cli, hcli.symm⟩, hplain'⟩

/-! ## The file -/

theorem decode_ofString (t : String) : decode (ofString t) = t.toList := decode_encode

theorem parse_csvHeader (rest : Units) : parseFile d (decode (csvHeader ++ rest)) =
    (parseFile d (decode rest)).map fun records => headerRecord :: records := by
  have hplain : ∀ t ∈ ["Timestamp", "TaskID", "Success", "ExecutionTime", "CLI",
      "UserSatisfaction"], ∀ c ∈ t.toList, d.textdata c = true := by
    have hascii : (["Timestamp", "TaskID", "Success", "ExecutionTime", "CLI",
        "UserSatisfaction"].all fun t => t.toList.all isTextdata) = true := by decide +kernel
    intro t ht c hc
    exact d.ascii c (all_eq_true.mp (all_eq_true.mp hascii t ht) c hc)
  have hheader : csvHeader = ofString "Timestamp" ++ (ofString "," ++
    (ofString "TaskID" ++ (ofString "," ++
      (ofString "Success" ++ (ofString "," ++ (ofString "ExecutionTime" ++
        (ofString "," ++ (ofString "CLI" ++
        (ofString "," ++ (ofString "UserSatisfaction" ++ ofString "\n")))))))))) := by
          decide +kernel
  rw [hheader]
  simp only [append_assoc, decode_comma, decode_newline, decode_ofString]
  rw [parseFile, parse_field (hplain _ (by simp)), parse_field (hplain _ (by simp)),
    parse_field (hplain _ (by simp)), parse_field (hplain _ (by simp)), parse_field
      (hplain _ (by simp)),
    parse_last (hplain _ (by simp))]
  rfl

theorem exportToCSV_some (history : List (StoredFeedback N Time)) :
    exportToCSV p (some history) = .ok (csvHeader ++ history.flatMap (csvLine p)) := by
  rw [exportToCSV, foldl_append_eq_append]
  rfl

theorem found_lines_iff (history : List (StoredFeedback N Time)) :
    (∃ records, parseFile d (decode (history.flatMap (csvLine p))) = some records ∧
      List.Forall₂ (RecordOf p) records history) ↔ ∀ f ∈ history, Safe d f.taskId ∧
      Safe d f.cli := by
  induction history with
  | nil => exact ⟨fun _ f hf => absurd hf not_mem_nil, fun _ => ⟨[], rfl, .nil⟩⟩
  | cons f history ih =>
    rw [flatMap_cons, forall_mem_cons, ← ih]
    constructor
    · rintro ⟨records, hparse, hrecords⟩
      cases hrecords with
      | cons hr hrest =>
        have hsafe := safe_of_found hparse hr
        rw [parse_csvLine hsafe.1 hsafe.2] at hparse
        obtain ⟨records', hparse', heq⟩ := Option.map_eq_some_iff.mp hparse
        exact ⟨hsafe, records', hparse', (cons.inj heq).2 ▸ hrest⟩
    · rintro ⟨hsafe, records, hparse, hrecords⟩
      refine ⟨written p f :: records, ?_, .cons (recordOf_written hsafe.1 hsafe.2) hrecords⟩
      rw [parse_csvLine hsafe.1 hsafe.2, hparse]
      rfl

/-- **What was exported is found in the file iff all its strings are plain fields.** -/
theorem exportToCSV_iff (d : Dialect) (p : Format N Time) (history : List (StoredFeedback N Time)) :
    (∃ csv, exportToCSV p (some history) = .ok csv ∧ Found p d history csv) ↔
      ∀ f ∈ history, Safe d f.taskId ∧ Safe d f.cli := by
  rw [← found_lines_iff (p := p), exportToCSV_some]
  constructor
  · rintro ⟨csv, hcsv, records, hparse, hrecords⟩
    cases hcsv
    rw [parse_csvHeader] at hparse
    obtain ⟨records', hparse', heq⟩ := Option.map_eq_some_iff.mp hparse
    exact ⟨records', hparse', (cons.inj heq).2 ▸ hrecords⟩
  · rintro ⟨records, hparse, hrecords⟩
    refine ⟨_, rfl, records, ?_, hrecords⟩
    rw [parse_csvHeader, hparse]
    rfl

def fixedFormat : Format Unit Unit where
  number _ := ofString "5"
  truthy _ := true
  iso _ := ofString "2024-01-01T00:00:00.000Z"
  printable_number _ := ⟨['5'], rfl, by decide⟩
  printable_iso _ := ⟨"2024-01-01T00:00:00.000Z".toList, rfl, by decide +kernel⟩

theorem task_id_split : ((exportToCSV fixedFormat
        (some [⟨some (), ofString "a,b", true, (), ofString "claude", none⟩])).toOption.map
      fun csv => parseFile rfc4180 (decode csv)) =
    some (some [headerRecord,
      ["2024-01-01T00:00:00.000Z", "a", "b", "true", "5", "claude", "N/A"].map String.toList]) := by
  decide +kernel

end Bridge.Learning.LearningPersistence
