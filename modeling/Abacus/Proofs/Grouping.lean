/- # The lines that make a logical line

Reading a file loses, doubles and merges nothing.  Its lines, blank ones left out where no logical
line goes on, fall into groups of lines one behind the other (`Script.Cut`), and each group makes
one logical line (`Script.Makes`).  A group goes on as long as it has more opening than closing
parentheses, so only the last one may leave some open.

The groups are computed by `Script.groups`, which looks at the lines alone, and the logical lines of
a file are read off from them (`Script.ofLines_eq`).  Everything else is then shown of the groups.
The numbers of the logical lines increase, so that a session queues each of them under
its own number, provided that all are parsed and none is too high a tree to be shown
(`Script.ofLines_exact`). -/
import Abacus.Proofs.FileRun
import Abacus.Proofs.Logging
import Abacus.Proofs.LongSums
import Abacus.Proofs.Words

namespace Abacus
set_option autoImplicit false

namespace Text

/-- The characters of a text that are not blank. -/
def plain (t : Text) : Text := t.filter fun c => !isBlank c

theorem join_concat {parts : List Text} (nonempty : parts ≠ []) (last : Text) :
    join [' '] (parts ++ [last]) = join [' '] parts ++ [' '] ++ last := by
  induction parts with
  | nil => exact absurd rfl nonempty
  | cons first rest ih =>
      cases rest with
      | nil => simp [join]
      | cons second rest => simpa [join] using ih (List.cons_ne_nil second rest)

/-- The characters that are not blank are those of the words. -/
theorem plain_of_words {first second : Text} (same : first.words = second.words) :
    first.plain = second.plain := by
  rw [plain, plain, ← flatten_words, same, flatten_words]

theorem blank_iff_plain {t : Text} : t.blank ↔ t.plain = [] := by
  simp [blank, plain, List.filter_eq_nil_iff]

theorem plain_append (first second : Text) :
    plain (first ++ second) = first.plain ++ second.plain := List.filter_append first second

theorem plain_join (parts : List Text) :
    (join [' '] parts).plain = plain parts.flatten := by
  induction parts with
  | nil => rfl
  | cons first rest ih =>
      cases rest with
      | nil => simp [join]
      | cons second rest =>
          have split : join [' '] (first :: second :: rest) =
              first ++ ([' '] ++ join [' '] (second :: rest)) := by simp [join]
          have blank : plain [' '] = [] := rfl
          rw [split, plain_append, plain_append, blank, List.nil_append, ih, ← plain_append,
            ← List.flatten_cons]

end Text

namespace Script

abbrev Group := List (Text × Nat)

def uncommented (line : Text) : Text := line.takeWhile (· != '#')

/-- The characters of texts that are put one behind the other with blanks between them, each with
the number of its text.  The blanks between have none. -/
def origins (pieces : Group) : List (Char × Option Nat) :=
  [(' ', none)].intercalate (pieces.map fun piece => piece.1.map fun c => (c, some piece.2))

/-- Two characters come from the same line, or one of them is a blank between lines. -/
def SameLine (first second : Char × Option Nat) : Prop :=
  first.2 = second.2 ∨ first.2 = none ∨ second.2 = none

/-- A piece is a part of a line with all its characters that count, blanks apart. -/
structure PieceOf (piece line : Text × Nat) : Prop where
  number : piece.2 = line.2
  part : piece.1 <:+: uncommented line.1
  all : piece.1.plain = (uncommented line.1).plain

/-- A group of lines makes a logical line. -/
structure Makes (group : Group) (line : LogicalLine) : Prop where
  written : ∃ first, group.head? = some first ∧ (uncommented first.1).blank = false
  number : ∃ last, group.getLast? = some last ∧ line.number = last.2
  pieces : ∃ pieces, List.Forall₂ PieceOf pieces group ∧
    line.text = (origins pieces).map Prod.fst ∧ (origins pieces).IsChain SameLine
  open_before : ∀ front back, group = front ++ back → front ≠ [] → back ≠ [] →
    unclosed (front.map fun line => uncommented line.1).flatten

/-- The groups are all there is of some lines but for blank ones between them. -/
inductive Cut : Group → List Group → Prop
  | nil : Cut [] []
  | blank {line : Text × Nat} {rest : Group} {groups : List Group}
      (blank : (uncommented line.1).blank) (later : Cut rest groups) : Cut (line :: rest) groups
  | group {rest : Group} {groups : List Group} (group : Group) (later : Cut rest groups) :
      Cut (group ++ rest) (group :: groups)

/-! ## The text of a group -/

/-- What is left of the lines of a group.  The first one keeps the blanks in front of it. -/
def pieces : Group → Group
  | [] => []
  | first :: rest => (clean first.1, first.2) :: rest.map fun line => ((clean line.1).trim, line.2)

def text (group : Group) : Text := Text.join [' '] ((pieces group).map Prod.fst)

def logical (group : Group) : LogicalLine := ⟨text group, (group.getLast?.elim 0 Prod.snd : Nat)⟩

/-- The lines that wait make a logical line that waits. -/
def awaited (waiting : Group) : Option LogicalLine :=
  if waiting = [] then none else some (logical waiting)

theorem text_single (line : Text × Nat) : text [line] = clean line.1 := by
  simp [text, pieces, Text.join]

/-- A line joins the lines that wait for it. -/
theorem text_concat {waiting : Group} (nonempty : waiting ≠ []) (line : Text × Nat) :
    text (waiting ++ [line]) = text waiting ++ [' '] ++ (clean line.1).trim := by
  obtain ⟨first, rest, rfl⟩ := List.exists_cons_of_ne_nil nonempty
  simp only [text, pieces, List.cons_append, List.map_cons, List.map_append, List.map_nil]
  rw [← List.cons_append, Text.join_concat (List.cons_ne_nil _ _)]

theorem joined_awaited (waiting : Group) (line : Text × Nat) :
    joined ((awaited waiting).map (·.text)) line.1 = text (waiting ++ [line]) := by
  by_cases empty : waiting = []
  · subst empty
    exact (text_single line).symm
  · rw [awaited, if_neg empty, text_concat empty]
    rfl

theorem awaited_concat (waiting : Group) (line : Text × Nat) :
    awaited (waiting ++ [line]) = some ⟨text (waiting ++ [line]), line.2⟩ := by
  rw [awaited, if_neg (by simp), logical, List.getLast?_concat]
  rfl

/-! ## The groups of a file -/

/-- The groups of some lines, with the lines that wait for the first. -/
def groups : Group → Group → List Group
  | waiting, [] => if waiting = [] then [] else [waiting]
  | waiting, line :: rest =>
    if unclosed (text (waiting ++ [line])) then groups (waiting ++ [line]) rest
    else if (text (waiting ++ [line])).blank then groups [] rest
    else (waiting ++ [line]) :: groups [] rest

theorem awaited_nil : ∀ w ∈ awaited [], unclosed w.text := by
  intro w member
  cases member

theorem steps_groups (lines : List Text) (number : Nat) (earlier : List LogicalLine)
    (waiting : Group) (more : ∀ w ∈ awaited waiting, unclosed w.text) :
    (steps number lines ⟨earlier ++ (awaited waiting).toList, (awaited waiting).isSome⟩).lines =
      earlier ++ (groups waiting (lines.zipIdx number)).map logical := by
  induction lines generalizing number earlier waiting with
  | nil =>
      rw [List.zipIdx_nil, groups, awaited]
      split <;> simp [steps]
  | cons line rest ih =>
      have stepped := step_joined earlier (awaited waiting) more number line
      rw [joined_awaited waiting (line, number)] at stepped
      rw [steps, stepped, List.zipIdx_cons, groups]
      have ended := awaited_concat waiting (line, number)
      by_cases goes : unclosed (text (waiting ++ [(line, number)]))
      · rw [if_pos goes, if_pos goes]
        have waits : ∀ w ∈ awaited (waiting ++ [(line, number)]), unclosed w.text := by
          intro w member
          rw [ended] at member
          rw [← Option.some.inj member]
          exact goes
        have later := ih (number + 1) earlier _ waits
        rw [ended] at later
        exact later
      · rw [if_neg goes, if_neg goes]
        split
        · have later := ih (number + 1) earlier [] awaited_nil
          simpa [awaited] using later
        · have later := ih (number + 1) (earlier ++ [⟨text (waiting ++ [(line, number)]), number⟩])
            [] awaited_nil
          simpa [awaited, logical] using later

/-- The logical lines of a file are those that its groups make. -/
theorem ofLines_eq (lines : List Text) :
    ofLines lines = (groups [] (lines.zipIdx 1)).map logical :=
  steps_groups lines 1 [] [] awaited_nil

/-! ## What is in a group -/

theorem unclosed_of_plain {first second : Text} (same : first.plain = second.plain) :
    unclosed first = unclosed second := by
  have counted : ∀ (c : Char) (t : Text), Text.isBlank c = false → t.plain.count c = t.count c :=
    fun c t plain => List.count_filter (by simp [plain])
  rw [unclosed, unclosed, ← counted '(' first rfl, ← counted ')' first rfl, same,
    counted '(' second rfl, counted ')' second rfl]

theorem pieceOf_clean (line : Text × Nat) : PieceOf (clean line.1, line.2) line where
  number := rfl
  part := (List.rdropWhile_prefix Text.isBlank (uncommented line.1)).isInfix
  all := Text.plain_of_words (words_clean line.1)

theorem pieceOf_trim (line : Text × Nat) : PieceOf ((clean line.1).trim, line.2) line where
  number := rfl
  part := by
    obtain ⟨before, behind, split, -⟩ := Text.trim_between (clean line.1)
    exact List.IsInfix.trans ⟨before, behind, split.symm⟩ (pieceOf_clean line).part
  all := by
    rw [← (pieceOf_clean line).all]
    exact Text.plain_of_words (Text.words_trim _)

theorem pieces_of (group : Group) : List.Forall₂ PieceOf (pieces group) group := by
  cases group with
  | nil => exact .nil
  | cons first rest =>
      refine .cons (pieceOf_clean first) ?_
      rw [List.forall₂_map_left_iff, List.forall₂_same]
      exact fun line _ => pieceOf_trim line

/-- A group makes a text of its own characters. -/
theorem plain_text (group : Group) :
    (text group).plain = Text.plain (group.map fun line => uncommented line.1).flatten := by
  have same := pieces_of group
  rw [text, Text.plain_join]
  generalize pieces group = parts at same
  induction same with
  | nil => rfl
  | cons piece _ ih =>
      simp only [List.map_cons, List.flatten_cons, Text.plain_append]
      rw [piece.all, ih]

theorem waiting_not_blank {waiting : Group} (nonempty : waiting ≠ [])
    (more : unclosed (text waiting)) (line : Text × Nat) :
    (text (waiting ++ [line])).blank = false := by
  rw [text_concat nonempty]
  exact joined_not_blank more line.1

/-- All lines are in some group but for blank ones. -/
theorem cut_groups (waiting lines : Group) (more : waiting ≠ [] → unclosed (text waiting)) :
    Cut (waiting ++ lines) (groups waiting lines) := by
  induction lines generalizing waiting with
  | nil =>
      rw [groups]
      split
      · rename_i empty
        rw [empty]
        exact .nil
      · exact .group waiting .nil
  | cons line rest ih =>
      rw [groups]
      split
      · rename_i goes
        have later := ih (waiting ++ [line]) fun _ => goes
        rw [List.append_assoc] at later
        exact later
      · have later := ih [] (absurd rfl)
        split
        · rename_i blank
          obtain rfl : waiting = [] := by
            by_contra nonempty
            rw [waiting_not_blank nonempty (more nonempty) line] at blank
            cases blank
          refine .blank ?_ later
          rw [Text.blank_iff_plain, plain_text] at blank
          rw [Text.blank_iff_plain]
          simpa using blank
        · have whole : waiting ++ line :: rest = (waiting ++ [line]) ++ rest := by simp
          rw [whole]
          exact .group _ later

/-- Each group leaves parentheses open until its last line, and something is written on it. -/
theorem mem_groups {waiting lines group : Group} (member : group ∈ groups waiting lines)
    (more : ∀ front, front <+: waiting → front ≠ [] → unclosed (text front)) :
    (text group).blank = false ∧
      ∀ front back, group = front ++ back → front ≠ [] → back ≠ [] → unclosed (text front) := by
  induction lines generalizing waiting with
  | nil =>
      rw [groups] at member
      split at member
      · cases member
      · rename_i nonempty
        obtain rfl := List.mem_singleton.mp member
        refine ⟨not_blank_of_unclosed (more _ List.prefix_rfl nonempty), ?_⟩
        rintro front back rfl first -
        exact more front (List.prefix_append front back) first
  | cons line rest ih =>
      rw [groups] at member
      split at member
      · rename_i goes
        refine ih member fun front part nonempty => ?_
        rcases List.prefix_concat_iff.mp part with rfl | part
        · exact goes
        · exact more front part nonempty
      · have vacuous : ∀ front : Group, front <+: [] → front ≠ [] → unclosed (text front) :=
          fun front part nonempty => absurd (List.prefix_nil.mp part) nonempty
        split at member
        · exact ih member vacuous
        · rename_i written
          rcases List.mem_cons.mp member with rfl | member
          · refine ⟨Bool.not_eq_true _ ▸ written, fun front back split nonempty last => ?_⟩
            obtain ⟨back, last, rfl⟩ := (List.eq_nil_or_concat back).resolve_left last
            rw [List.concat_eq_append, ← List.append_assoc] at split
            obtain rfl := (List.append_inj' split rfl).1
            exact more front (List.prefix_append front back) nonempty
          · exact ih member vacuous

/-- Only the last group may leave parentheses open. -/
theorem closed_of_mem_dropLast {waiting lines group : Group}
    (member : group ∈ (groups waiting lines).dropLast) : unclosed (text group) = false := by
  induction lines generalizing waiting with
  | nil =>
      rw [groups] at member
      split at member <;> cases member
  | cons line rest ih =>
      rw [groups] at member
      split at member
      · exact ih member
      · rename_i closed
        split at member
        · exact ih member
        · cases later : groups [] rest with
          | nil =>
              rw [later] at member
              cases member
          | cons first others =>
              rw [later, List.dropLast_cons_of_ne_nil (List.cons_ne_nil _ _), ← later] at member
              rcases List.mem_cons.mp member with rfl | member
              · exact Bool.not_eq_true _ ▸ closed
              · exact ih member

/-! ## Where the characters of a logical line come from -/

theorem origins_cons (first second : Text × Nat) (rest : Group) :
    origins (first :: second :: rest) =
      (first.1.map fun c => (c, some first.2)) ++ (' ', none) :: origins (second :: rest) := by
  simp [origins]

theorem map_origins (parts : Group) :
    (origins parts).map Prod.fst = Text.join [' '] (parts.map Prod.fst) := by
  induction parts with
  | nil => rfl
  | cons first rest ih =>
      cases rest with
      | nil => simp [origins, Text.join, Function.comp_def]
      | cons second rest =>
          rw [origins_cons, List.map_append, List.map_cons, ih]
          simp [Text.join, Function.comp_def]

theorem chain_line (line : Text × Nat) :
    (line.1.map fun c => (c, some line.2)).IsChain SameLine := by
  rw [List.isChain_map]
  exact (List.pairwise_of_forall fun _ _ => .inl rfl).isChain

/-- Lines meet at a blank between them only. -/
theorem chain_origins (parts : Group) : (origins parts).IsChain SameLine := by
  induction parts with
  | nil => exact .nil
  | cons first rest ih =>
      cases rest with
      | nil => simpa [origins] using chain_line first
      | cons second rest =>
          rw [origins_cons]
          refine (chain_line first).append (List.isChain_cons.mpr ⟨?_, ih⟩) ?_
          · exact fun _ _ => .inr (.inl rfl)
          · rintro x - y member
            obtain rfl := Option.some.inj member
            exact .inr (.inr rfl)

/-- Each group makes its logical line. -/
theorem makes_of_mem {lines group : Group} (member : group ∈ groups [] lines) :
    Makes group (logical group) := by
  obtain ⟨written, more⟩ := mem_groups member
    fun front part nonempty => absurd (List.prefix_nil.mp part) nonempty
  have nonempty : group ≠ [] := by
    rintro rfl
    cases written
  refine ⟨?_, ?_, ⟨pieces group, pieces_of group, (map_origins _).symm, chain_origins _⟩, ?_⟩
  · obtain ⟨first, rest, rfl⟩ := List.exists_cons_of_ne_nil nonempty
    have single : (text [first]).blank = false := by
      cases rest with
      | nil => exact written
      | cons second rest =>
          exact not_blank_of_unclosed (more [first] (second :: rest) rfl nofun nofun)
    refine ⟨first, rfl, ?_⟩
    rw [text_single, Text.blank_of_words (words_clean first.1)] at single
    exact single
  · refine ⟨_, List.getLast?_eq_some_getLast nonempty, ?_⟩
    rw [logical, List.getLast?_eq_some_getLast nonempty]
    rfl
  · intro front back split first last
    rw [← unclosed_of_plain (plain_text front)]
    exact more front back split first last

/-- Nothing but blanks is left out by a cut. -/
theorem Cut.plain {lines : Group} {groups : List Group} (cut : Cut lines groups) :
    Text.plain (groups.map text).flatten =
      Text.plain (lines.map fun line => uncommented line.1).flatten := by
  induction cut with
  | nil => rfl
  | blank blank later ih =>
      rw [List.map_cons, List.flatten_cons, Text.plain_append, Text.blank_iff_plain.mp blank, ih]
      rfl
  | group group later ih =>
      rw [List.map_cons, List.flatten_cons, Text.plain_append, plain_text, ih, List.map_append,
        List.flatten_append, Text.plain_append]

theorem map_uncommented_zipIdx (lines : List Text) (n : Nat) :
    ((lines.zipIdx n).map fun line => uncommented line.1) = lines.map uncommented := by
  have names := List.zipIdx_map_fst n lines
  conv_rhs => rw [← names, List.map_map]
  rfl

end Script

/-! ## The queue of a session -/

/-- A line that is parsed to a tree of allowed height is queued, with and without messages. -/
theorem Desk.add_queues {cfg : Settings} {text : Text} {t : Tree}
    (parsed : Tree.parse cfg.depth text = .ok t) (low : t.height ≤ cfg.depth) (line : Int)
    (d : Desk) : ∃ after, add cfg text line d = .ok () after ∧
      after.session = { d.session with queue := d.session.queue.insert line (text, t) } := by
  obtain ⟨depth, debug⟩ := cfg
  obtain ⟨w, written, valid⟩ := Tree.writable_of_parse parsed
  have quiet : ∃ after, add ⟨depth, false⟩ text line d = .ok () after ∧
      after.session = { d.session with queue := d.session.queue.insert line (text, t) } := by
    rcases written.display valid depth 0 with ⟨-, high⟩ | ⟨shown, ok⟩
    · exact absurd low (Nat.not_le_of_lt high)
    · rw [add_eq, parsed]
      dsimp only
      rw [ok]
      exact ⟨_, rfl, rfl⟩
  cases debug with
  | false => exact quiet
  | true =>
      obtain ⟨after, added, session⟩ := quiet
      rcases add_debug depth text line d with ⟨tokens, -, failure, left⟩ | ⟨refusal, refused, -⟩
      · rw [added] at failure left
        cases logged : add ⟨depth, true⟩ text line d with
        | error e last =>
            rw [logged] at failure
            cases failure
        | ok _ last =>
            rw [logged] at left
            have same : last.unlogged.session = after.unlogged.session := congrArg Desk.session left
            exact ⟨last, rfl, Eq.trans same session⟩
      · have stops := Scanner.tokens?_eq_error_iff.mp refused
        obtain ⟨e, failed⟩ := Tree.parse_refused depth stops
        cases parsed.symm.trans failed

/-- Lines that are parsed to trees of allowed height are all queued, in their order. -/
theorem Session.addLines_queues {cfg : Settings} (lines : List LogicalLine)
    (parses : ∀ l ∈ lines, ∃ t, Tree.parse cfg.depth l.text = .ok t ∧ t.height ≤ cfg.depth)
    (sorted : lines.Pairwise fun first second => first.number < second.number) (d : Desk)
    (fresh : ∀ l ∈ lines, ∀ key ∈ d.session.queue.keys, key < l.number) :
    ∃ entries final, List.Forall₂ (Script.Loads cfg.depth) lines entries ∧
      addLines cfg lines d = .ok () final ∧
      final.session.queue.entries = d.session.queue.entries ++ entries := by
  induction lines generalizing d with
  | nil => exact ⟨[], d, .nil, rfl, (List.append_nil _).symm⟩
  | cons first rest ih =>
      obtain ⟨t, parsed, low⟩ := parses first List.mem_cons_self
      obtain ⟨after, added, session⟩ := Desk.add_queues parsed low first.number d
      obtain ⟨queued, later⟩ := insert_below sorted fresh (first.text, t)
      obtain ⟨entries, final, loads, loaded, queue⟩ :=
        ih (fun l member => parses l (List.mem_cons_of_mem _ member))
          (List.pairwise_cons.mp sorted).2 after (by rw [session]; exact later)
      refine ⟨(first.number, first.text, t) :: entries, final,
        .cons ⟨rfl, rfl, parsed⟩ loads, ?_, ?_⟩
      · rw [addLines_cons, added]
        exact loaded
      · rw [queue, session]
        dsimp only
        rw [queued, List.append_assoc, List.singleton_append]

theorem Session.start_queues {cfg : Settings} {read : FileReader} {path text : Text}
    (named : path ≠ typedPath) (readable : readFile read path = .ok text)
    (parses : ∀ line ∈ Script.ofLines text.lines,
      ∃ t, Tree.parse cfg.depth line.text = .ok t ∧ t.height ≤ cfg.depth)
    (interactive echo : Bool) (c : Console) :
    ∃ session c', start cfg read path interactive echo c = .ok session c' ∧
      List.Forall₂ (Script.Loads cfg.depth) (Script.ofLines text.lines) session.queue.entries := by
  have loads : load cfg read path interactive = addLines cfg (Script.ofLines text.lines) := by
    simp only [load, if_neg named, readable]
  let reporter := if interactive then { c.reporter.clearLine path with fatal := false }
    else c.reporter.clearLine path
  obtain ⟨entries, final, queued, loaded, queue⟩ := addLines_queues (Script.ofLines text.lines)
    parses (Script.ofLines_ordered text.lines).1 ⟨{ c with reporter }, { path, echo }⟩
    (by simp [OrderedMap.keys, OrderedMap.empty])
  refine ⟨final.session, final.console, ?_, ?_⟩
  · unfold start
    dsimp only
    rw [loads, loaded]
  · rw [queue]
    exact queued

theorem Script.Loads.numbers {depth : Nat} {lines : List LogicalLine}
    {entries : List (Int × (Text × Tree))}
    (loads : List.Forall₂ (Script.Loads depth) lines entries) :
    entries.map Prod.fst = lines.map (·.number) := by
  induction loads with
  | nil => rfl
  | cons load _ ih => rw [List.map_cons, List.map_cons, load.1, ih]

/-! ## Everything at once -/

namespace Script

/-- Reading the lines of a file loses, doubles and merges nothing.  The logical lines are numbered
upwards and none is blank; together they have the characters of the lines, comments and blanks
apart; the lines fall into groups that make one logical line each; and only the last logical line
may leave parentheses open.  A session on a file whose logical lines are all parsed, to trees of
allowed height, queues each of them under its own number, in order. -/
theorem ofLines_exact (lines : List Text) :
    ((ofLines lines).Pairwise fun first second => first.number < second.number) ∧
    (∀ line ∈ ofLines lines, line.text.blank = false) ∧
    Text.plain ((ofLines lines).map (·.text)).flatten =
      Text.plain (lines.map uncommented).flatten ∧
    (∃ groups, Cut (lines.zipIdx 1) groups ∧ List.Forall₂ Makes groups (ofLines lines)) ∧
    (∀ line ∈ (ofLines lines).dropLast, line.text.count '(' ≤ line.text.count ')') ∧
    ∀ (cfg : Settings) (read : FileReader) (path text : Text) (interactive echo : Bool)
      (c : Console), path ≠ Session.typedPath → Session.readFile read path = .ok text →
      text.lines = lines →
      (∀ line ∈ ofLines lines,
        ∃ t, Tree.parse cfg.depth line.text = .ok t ∧ t.height ≤ cfg.depth) →
      ∃ session c', Session.start cfg read path interactive echo c = .ok session c' ∧
        List.Forall₂ (Loads cfg.depth) (ofLines lines) session.queue.entries ∧
        session.queue.keys.Nodup := by
  have sorted := (ofLines_ordered lines).1
  have cut := cut_groups [] (lines.zipIdx 1) (absurd rfl)
  refine ⟨sorted, ?_, ?_, ⟨_, cut, ?_⟩, ?_, ?_⟩
  · intro line member
    rw [ofLines_eq] at member
    obtain ⟨group, found, rfl⟩ := List.mem_map.mp member
    exact (mem_groups found fun front part nonempty => absurd (List.prefix_nil.mp part) nonempty).1
  · have texts : (ofLines lines).map (·.text) = (groups [] (lines.zipIdx 1)).map text := by
      rw [ofLines_eq, List.map_map]
      rfl
    rw [texts, cut.plain, List.nil_append, map_uncommented_zipIdx]
  · rw [ofLines_eq, List.forall₂_map_right_iff, List.forall₂_same]
    exact fun group member => makes_of_mem member
  · intro line member
    rw [ofLines_eq, ← List.map_dropLast] at member
    obtain ⟨group, found, rfl⟩ := List.mem_map.mp member
    have closed := closed_of_mem_dropLast found
    rw [unclosed, decide_eq_false_iff_not, Nat.not_lt] at closed
    exact closed
  · rintro cfg read path text interactive echo c named readable rfl parses
    obtain ⟨session, c', started, loads⟩ :=
      Session.start_queues named readable parses interactive echo c
    refine ⟨session, c', started, loads, ?_⟩
    rw [OrderedMap.keys, Loads.numbers loads]
    refine List.Pairwise.map _ (fun first second below => ?_) sorted
    exact Int.ne_of_lt below

/-- A logical line over three lines, of which one is empty, and a comment line between that line and
the next one. -/
theorem ofLines_exact_five_lines :
    let lines := ["a = (1 # one".toList, [], "  + 2)".toList, " # )".toList, "a * 2".toList]
    let read : FileReader := fun _ => some "a = (1 # one\n\n  + 2)\n # )\na * 2".toUTF8.toList
    ofLines lines = [⟨"a = (1  + 2)".toList, 3⟩, ⟨"a * 2".toList, 5⟩] ∧
    ∃ session c', Session.start ⟨30, true⟩ read "calc.txt".toList false true {} = .ok session c' ∧
      session.queue.keys = [3, 5] := by
  intro lines read
  have made : ofLines lines = [⟨"a = (1  + 2)".toList, 3⟩, ⟨"a * 2".toList, 5⟩] := by
    decide +kernel
  have readable : Session.readFile read "calc.txt".toList = .ok (Text.join ['\n'] lines) := by cbv
  have same : (Text.join ['\n'] lines).lines = lines := by decide +kernel
  have parses : ∀ line ∈ ofLines lines,
      ∃ t, Tree.parse 30 line.text = .ok t ∧ t.height ≤ 30 := by
    rw [made]
    refine List.forall_mem_cons.mpr ⟨⟨.assignment (.reference "a".toList) (.binary (.symbol .plus)
      (.literal (.int 1)) (.literal (.int 2))), ?_⟩, List.forall_mem_singleton.mpr
      ⟨.binary (.symbol .star) (.reference "a".toList) (.literal (.int 2)), ?_⟩⟩
    · decide +kernel
    · decide +kernel
  obtain ⟨-, -, -, -, -, queues⟩ := ofLines_exact lines
  obtain ⟨session, c', started, loads, -⟩ := queues ⟨30, true⟩ read "calc.txt".toList _ false true
    {} (by decide) readable same parses
  refine ⟨made, session, c', started, ?_⟩
  rw [OrderedMap.keys, Loads.numbers loads, made]
  rfl

end Script

/-! ## A tree that is too high -/

/-- Characters of one byte each are read as they are. -/
theorem Utf8.decodeBytes_ascii (last : Bool) {t : Text} (ascii : ∀ c ∈ t, c.toNat < 128)
    {allowance : Nat} (enough : t.length ≤ allowance) (position : Nat) :
    decodeBytes last allowance position (t.map fun c => UInt8.ofNat c.toNat) = .ok (t, []) := by
  induction t generalizing allowance position with
  | nil =>
      cases allowance <;> rfl
  | cons c rest ih =>
      obtain ⟨allowance, rfl⟩ := Nat.exists_eq_add_one.mpr (Nat.zero_lt_of_lt enough)
      have small := ascii c List.mem_cons_self
      have byte : (UInt8.ofNat c.toNat).toNat = c.toNat :=
        UInt8.toNat_ofNat_of_lt (Nat.lt_trans small (by decide))
      have first : ∀ bytes, head (UInt8.ofNat c.toNat) bytes = .character c 1 := by
        intro bytes
        rw [head, byte, if_pos small, Char.ofNat_toNat]
      have later := ih (fun x member => ascii x (List.mem_cons_of_mem _ member))
        (Nat.le_of_succ_le_succ enough) (position + 1)
      rw [List.map_cons, decodeBytes, first]
      dsimp only
      rw [List.drop_one, List.tail_cons, later]

/-- A file of one block. -/
theorem Utf8.decode_ascii {t : Text} (ascii : ∀ c ∈ t, c.toNat < 128)
    (short : t.length ≤ blockSize) :
    decode (t.map fun c => UInt8.ofNat c.toNat) = .ok t := by
  cases t with
  | nil => rfl
  | cons c rest =>
      have size : ((c :: rest).map fun c => UInt8.ofNat c.toNat).length ≤ blockSize := by
        rw [List.length_map]
        exact short
      have decoded := decodeBytes_ascii false ascii (Nat.le_refl _) 0
      rw [decode, List.length_map, List.length_cons, List.map_cons, decodeBlocks]
      rw [List.map_cons] at size decoded
      rw [List.nil_append, List.take_of_length_le size, List.drop_of_length_le size,
        List.length_cons, List.length_map]
      rw [List.length_cons] at decoded
      rw [decoded]
      simp [decodeBlocks, decodeBytes]

/-- A line without comments and blanks is a logical line as it stands. -/
theorem Script.ofLines_single {line : Text} (nonempty : line ≠ [])
    (plain : ∀ c ∈ line, c ≠ '#' ∧ Text.isBlank c = false) : ofLines [line] = [⟨line, 1⟩] := by
  have whole : line.takeWhile (· != '#') = line := by
    rw [List.takeWhile_eq_self_iff]
    exact fun c member => by simp [(plain c member).1]
  have kept : clean line = line := by
    rw [clean, whole]
    refine List.rdropWhile_eq_self_iff.mpr fun nonempty => ?_
    simp [(plain _ (List.getLast_mem nonempty)).2]
  have written : line.blank = false := by
    rw [Text.blank, List.all_eq_false]
    exact ⟨_, List.head_mem nonempty, by simp [(plain _ (List.head_mem nonempty)).2]⟩
  simp [ofLines, steps, step, kept, written]

theorem Session.readFile_ok {read : FileReader} {path text : Text} {bytes : List UInt8}
    (named : path.contains (Char.ofNat 0) = false) (found : read path = some bytes)
    (decoded : Utf8.decode bytes = .ok text) : readFile read path = .ok text := by
  rw [readFile, named, if_neg Bool.false_ne_true, found]
  dsimp only
  rw [decoded]

/-- No session is opened on a file whose first logical line is parsed to a tree that is too high. -/
theorem Session.start_too_high {depth : Nat} {read : FileReader} {path text : Text}
    (named : path ≠ typedPath) (readable : readFile read path = .ok text) {line : LogicalLine}
    {rest : List LogicalLine} (first : Script.ofLines text.lines = line :: rest) {t : Tree}
    (parsed : Tree.parse depth line.text = .ok t) (high : depth < t.height)
    (interactive echo : Bool) (c : Console) :
    ∃ c', start ⟨depth, false⟩ read path interactive echo c = .error .tooDeep c' := by
  have deep : t.display depth 0 = .error .tooDeep := by
    obtain ⟨w, written, valid⟩ := Tree.writable_of_parse parsed
    rcases written.display valid depth 0 with ⟨deep, -⟩ | ⟨shown, ok⟩
    · exact deep
    · exact absurd (Tree.height_le_of_display ok) (Nat.not_le_of_lt high)
  have fails : ∀ d, ∃ last, load ⟨depth, false⟩ read path interactive d = .error .tooDeep last := by
    intro d
    rw [load, if_neg named, readable]
    dsimp only
    rw [first, addLines_cons, Desk.add_eq, parsed]
    dsimp only
    rw [deep]
    exact ⟨_, rfl⟩
  let reporter := if interactive then { c.reporter.clearLine path with fatal := false }
    else c.reporter.clearLine path
  obtain ⟨last, failed⟩ := fails ⟨{ c with reporter }, { path, echo }⟩
  refine ⟨last.console, ?_⟩
  unfold start
  dsimp only
  rw [failed]

/-- The height counts.  The sum of 1601 ones is a line that is parsed, but no session is opened on a
file with this line, because its tree is too high to be shown. -/
theorem Session.start_long_sum :
    let text : Text := '1' :: Text.plusOnes 1600
    let read : FileReader := fun _ => some (text.map fun c => UInt8.ofNat c.toNat)
    "calc.txt".toList ≠ typedPath ∧ readFile read "calc.txt".toList = .ok text ∧
    (∀ line ∈ Script.ofLines text.lines, ∃ t, Tree.parse nestingAllowance line.text = .ok t) ∧
    ∃ c, start ⟨nestingAllowance, false⟩ read "calc.txt".toList false false {} =
      .error .tooDeep c := by
  intro text read
  have named : "calc.txt".toList ≠ typedPath := by decide
  have chars : ∀ c ∈ text, c = '1' ∨ c = '+' := fun c member => Text.mem_plusOnes member
  have nonempty : text ≠ [] := List.cons_ne_nil _ _
  obtain ⟨t, parsed, high⟩ : ∃ t, Tree.parse nestingAllowance text = .ok t ∧
      nestingAllowance < t.height := by
    refine ⟨_, Tree.parse_plusOnes 974 1600, ?_⟩
    rw [Tree.height_plusOnes]
    decide
  have readable : readFile read "calc.txt".toList = .ok text := by
    have short : text.length ≤ Utf8.blockSize := by
      rw [List.length_cons, Text.length_plusOnes]
      decide
    have decoded : Utf8.decode (text.map fun c => UInt8.ofNat c.toNat) = .ok text := by
      refine Utf8.decode_ascii (fun c member => ?_) short
      rcases chars c member with rfl | rfl <;> decide
    exact readFile_ok (by decide) rfl decoded
  -- from here on the sum is not looked into any more
  clear_value text read
  have single : text.lines = [text] := by
    refine Text.linesFrom_last (fun c member => ?_) [] nonempty
    rcases chars c member with rfl | rfl <;> decide
  have made : Script.ofLines text.lines = [⟨text, 1⟩] := by
    rw [single]
    refine Script.ofLines_single nonempty fun c member => ?_
    rcases chars c member with rfl | rfl <;> decide
  refine ⟨named, readable, ?_, start_too_high named readable made parsed high false false {}⟩
  rw [made]
  exact List.forall_mem_singleton.mpr ⟨t, parsed⟩

end Abacus
