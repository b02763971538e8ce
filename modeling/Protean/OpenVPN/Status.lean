import Mathlib.Data.List.DropRight
import Protean.OpenVPN.Clients

namespace Protean.OpenVPN

/-- The number that `strconv.ParseUint` gives with or without an error. -/
def parseUint (t : Text) : Nat := ((Text.readDecimal t).map (min · (2 ^ 64 - 1))).getD 0

/-- `strings.TrimRight(line, "\r")`. -/
def trimCR (line : Text) : Text := line.rdropWhile (· = '\r')

def statusClient (line : Text) : Option ConnectedClient :=
  if "CLIENT_LIST".toList.isPrefixOf line then
    match line.splitOn (if '\t' ∈ line then '\t' else ',') with
    | _ :: commonName :: realAddress :: virtualAddress :: _ :: received :: sent :: _ :: rest =>
      some { commonName, realAddress, virtualAddress
             bytesReceived := parseUint (Text.trimSpace received)
             bytesSent := parseUint (Text.trimSpace sent)
             connectedSince := rest.head?.bind fun since => (Text.atoi (Text.trimSpace since)).filter (0 < ·) }
    | _ => none
  else none

def parseStatus (content : Text) : List ConnectedClient := (Text.lines content).filterMap fun line => statusClient (trimCR line)

/-- Version 2 and version 3 of the file. -/
inductive Layout
  | comma
  | tab
  deriving DecidableEq, Repr

def Layout.sep : Layout → Char
  | comma => ','
  | tab => '\t'

def Plain (t : Text) : Prop := ∀ c ∈ t, c ∉ [',', '\t', '\r', '\n']

/-- A client as the daemon writes it, with the columns that are not read. -/
structure Row where
  commonName : Text
  realAddress : Text
  virtualAddress : Text
  virtualAddress6 : Text
  bytesReceived : Nat
  bytesSent : Nat
  connectedText : Text
  connectedSince : Nat
  extra : List Text
  crlf : Bool
  plain : ∀ t ∈ commonName :: realAddress :: virtualAddress :: virtualAddress6 :: connectedText :: extra, Plain t
  received_lt : bytesReceived < 2 ^ 64
  sent_lt : bytesSent < 2 ^ 64
  since_pos : 0 < connectedSince
  since_lt : connectedSince < 2 ^ 63

inductive StatusLine
  | client (row : Row)
  | other (line : Text) (single : '\n' ∉ line) (start : ¬ "CLIENT_LIST".toList <+: line)

def Row.columns (r : Row) : List Text :=
  ["CLIENT_LIST".toList, r.commonName, r.realAddress, r.virtualAddress, r.virtualAddress6, Text.decimal r.bytesReceived,
    Text.decimal r.bytesSent, r.connectedText, Text.decimal r.connectedSince] ++ r.extra

def StatusLine.text (layout : Layout) : StatusLine → Text
  | client r => [layout.sep].intercalate r.columns ++ if r.crlf then ['\r'] else []
  | other line _ _ => line

def StatusLine.client? : StatusLine → Option ConnectedClient
  | client r => some ⟨r.commonName, r.realAddress, r.virtualAddress, r.bytesReceived, r.bytesSent, some r.connectedSince⟩
  | other .. => none

def statusFile (layout : Layout) (ls : List StatusLine) : Text := ['\n'].intercalate (ls.map (·.text layout))

section
variable {c : Char} {n : Nat} (layout : Layout) (r : Row)

theorem trimSpace_decimal (n : Nat) : Text.trimSpace (Text.decimal n) = Text.decimal n := by
  refine (Text.trimmed_of_no_space fun c member => ?_).trimSpace_eq
  exact (Inet.textChar_plain (Inet.textChar_of_isDigit (Text.isDigit_of_mem_decimal member))).1

theorem parseUint_decimal (small : n < 2 ^ 64) : parseUint (Text.decimal n) = n := by
  rw [parseUint, Text.readDecimal_decimal]
  exact min_eq_left (Nat.le_pred_of_lt small)

theorem plain_decimal (n : Nat) : Plain (Text.decimal n) := by
  intro c member listed
  have digit := Text.isDigit_of_mem_decimal member
  simp at listed
  rcases listed with rfl | rfl | rfl | rfl <;> cases digit

theorem plain_columns : ∀ t ∈ r.columns, Plain t := by
  have plain := r.plain
  simp only [Row.columns, List.cons_append, List.nil_append, List.forall_mem_cons] at plain ⊢
  obtain ⟨name, real, virt, virt6, since, extra⟩ := plain
  exact ⟨by unfold Plain; decide, name, real, virt, virt6, plain_decimal _, plain_decimal _, since, plain_decimal _, extra⟩

theorem not_mem_columns (listed : c ∈ [',', '\t', '\r', '\n']) (other : c ≠ layout.sep) :
    c ∉ [layout.sep].intercalate r.columns := by
  rw [Text.mem_intercalate other]
  rintro ⟨part, member, inside⟩
  exact plain_columns r part member c inside listed

/-- The separator is guessed right. -/
theorem sep_eq : (if '\t' ∈ [layout.sep].intercalate r.columns then '\t' else ',') = layout.sep := by
  cases layout with
  | comma => exact if_neg (not_mem_columns .comma r (by decide) (by decide))
  | tab => exact if_pos (by simp [Row.columns, Layout.sep])

theorem trimCR_append {t : Text} (none : '\r' ∉ t) (crlf : Bool) : trimCR (t ++ if crlf then ['\r'] else []) = t := by
  have kept : t.rdropWhile (· = '\r') = t := by
    rw [List.rdropWhile_eq_self_iff]
    intro nonempty same
    exact none (of_decide_eq_true same ▸ List.getLast_mem nonempty)
  cases crlf <;> simp [trimCR, kept]

theorem statusClient_text (l : StatusLine) : statusClient (trimCR (l.text layout)) = l.client? := by
  cases l with
  | other line single start =>
    refine if_neg fun found => start ?_
    exact ( List.isPrefixOf_iff_prefix.mp found).trans ( List.rdropWhile_prefix _ _)
  | client r =>
    have split : ([layout.sep].intercalate r.columns).splitOn layout.sep = r.columns := by
      refine List.splitOn_intercalate _ (fun t member inside => plain_columns r t member _ inside ?_) (by simp [Row.columns])
      cases layout <;> decide
    have first : "CLIENT_LIST".toList.isPrefixOf ([layout.sep].intercalate r.columns) = true := by
      rw [Row.columns, List.cons_append, List.intercalate_cons_of_ne_nil (by simp)]
      exact List.isPrefixOf_iff_prefix.mpr (by simp)
    have since : (Text.atoi (Text.decimal r.connectedSince)).filter (0 < ·) = some (r.connectedSince : Int) := by
      have read := Text.readSigned_itoa r.connectedSince
      have positive := r.since_pos
      have small := r.since_lt
      rw [Text.itoa_natCast] at read
      rw [Text.atoi, read, Option.filter_some, if_pos (decide_eq_true (by omega)), Option.filter_some,
        if_pos (decide_eq_true (by omega))]
    rw [StatusLine.text, trimCR_append (not_mem_columns layout r (by decide) (by cases layout <;> decide)), statusClient,
      if_pos first, sep_eq, split]
    simp only [Row.columns, List.cons_append, List.nil_append, trimSpace_decimal, parseUint_decimal r.received_lt,
      parseUint_decimal r.sent_lt, List.head?_cons, Option.bind_some, since]
    rfl

theorem single_text (l : StatusLine) : '\n' ∉ l.text layout := by
  cases l with
  | other line single _ => exact single
  | client r =>
    intro member
    rcases List.mem_append.mp member with inside | last
    · exact not_mem_columns layout r (by decide) (by cases layout <;> decide) inside
    · split at last <;> simp at last

end

/-- The records of a status file, whatever its layout, its line ends and its other lines. -/
theorem parseStatus_statusFile (layout : Layout) (ls : List StatusLine) :
    parseStatus (statusFile layout ls) = ls.filterMap StatusLine.client? := by
  cases ls with
  | nil => rfl
  | cons l ls =>
    have lines : Text.lines (statusFile layout (l :: ls)) = (l :: ls).map (·.text layout) := by
      refine List.splitOn_intercalate _ (fun t member => ?_) (by simp)
      obtain ⟨l', -, rfl⟩ := List.mem_map.mp member
      exact single_text layout l'
    rw [parseStatus, lines, List.filterMap_map]
    exact List.filterMap_congr fun l' _ => statusClient_text layout l'

end Protean.OpenVPN
