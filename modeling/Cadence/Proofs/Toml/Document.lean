import Cadence.Proofs.Toml.Numeral
import Cadence.Toml.Document

/-!
Documents that are written are read back: tables of plain values under bare names come out as they went in. The text is
taken line by line, and each line adds to the tables what it was written for.
-/

namespace Cadence.Toml

/-! ### Names -/

/-- A name that is written without quotes. -/
def IsBare (name : String) : Prop := name.toList ≠ [] ∧ ∀ c ∈ name.toList, isBareKeyChar c = true

instance (name : String) : Decidable (IsBare name) :=
  decidable_of_iff (name.toList ≠ [] ∧ name.toList.all isBareKeyChar = true) (by rw [IsBare, List.all_eq_true])

/-- No bare name begins with a character that has a meaning of its own at the start of a line. -/
theorem ne_of_isBareKeyChar {c d : Char} (hc : isBareKeyChar c = true) (hd : isBareKeyChar d = false) : c ≠ d := by
  rintro rfl
  rw [hc] at hd
  cases hd

theorem isSpace_of_isBareKeyChar {c : Char} (hc : isBareKeyChar c = true) : isSpace c = false := by
  have hspace := ne_of_isBareKeyChar (d := ' ') hc (by decide)
  have htab := ne_of_isBareKeyChar (d := '\t') hc (by decide)
  simp [isSpace, hspace, htab]

theorem IsBare.exists_cons {name : String} (h : IsBare name) :
    ∃ c cs, name.toList = c :: cs ∧ isBareKeyChar c = true := by
  obtain ⟨hne, hall⟩ := h
  cases hname : name.toList with
  | nil => exact absurd hname hne
  | cons c cs => exact ⟨c, cs, rfl, hall c (by rw [hname]; exact List.mem_cons_self)⟩

theorem skipSpaces_of_not_isSpace {c : Char} (hc : isSpace c = false) (text : List Char) :
    skipSpaces (c :: text) = c :: text := by
  rw [skipSpaces, List.dropWhile_cons_of_neg (by simp [hc])]

theorem keyPart_bare {name : String} (hname : IsBare name) {c : Char} (hc : isBareKeyChar c = false)
    (rest : List Char) : keyPart (name.toList ++ c :: rest) = some (name, c :: rest) := by
  have hall : ∀ c ∈ name.toList, isBareKeyChar c = true := hname.2
  have htake : (name.toList ++ c :: rest).takeWhile isBareKeyChar = name.toList := by
    rw [List.takeWhile_append_of_pos hall, List.takeWhile_cons_of_neg (by simp [hc]), List.append_nil]
  have hdrop : (name.toList ++ c :: rest).dropWhile isBareKeyChar = c :: rest := by
    rw [List.dropWhile_append_of_pos hall, List.dropWhile_cons_of_neg (by simp [hc])]
  have hplain : keyPart (name.toList ++ c :: rest) =
      let name' := (name.toList ++ c :: rest).takeWhile isBareKeyChar
      if name'.isEmpty then none
      else some (String.ofList name', (name.toList ++ c :: rest).dropWhile isBareKeyChar) := by
    obtain ⟨first, cs, hcs, hfirst⟩ := hname.exists_cons
    rw [hcs, List.cons_append, keyPart.eq_def]
    split
    · rename_i heq
      exact absurd (List.cons.inj heq).1 (ne_of_isBareKeyChar hfirst (by decide))
    · rename_i heq
      exact absurd (List.cons.inj heq).1 (ne_of_isBareKeyChar hfirst (by decide))
    · rfl
  rw [hplain, htake, hdrop]
  simp [hname.1]

/-- A bare name is a key of one part; the spaces behind it belong to it. -/
theorem key_bare {name : String} (hname : IsBare name) {c mark : Char} {rest rest' : List Char}
    (hc : isBareKeyChar c = false) (hskip : skipSpaces (c :: rest) = mark :: rest') (hmark : mark ≠ '.') :
    key (name.toList ++ c :: rest) = some (([], name), mark :: rest') := by
  have hstart : skipSpaces (name.toList ++ c :: rest) = name.toList ++ c :: rest := by
    obtain ⟨first, cs, hcs, hfirst⟩ := hname.exists_cons
    rw [hcs]
    exact skipSpaces_of_not_isSpace (isSpace_of_isBareKeyChar hfirst) _
  have hparts : keyParts depthLimit (name.toList ++ c :: rest) = some ([name], mark :: rest') := by
    rw [depthLimit, keyParts, hstart, keyPart_bare hname hc]
    dsimp only
    rw [hskip]
    split
    · rename_i heq
      exact absurd (List.cons.inj heq).1 hmark
    · rfl
  rw [key, hparts]
  rfl

/-! ### Lines -/

/-- The text is read as these lines. -/
def ReadsAs (text : List Char) (found : List Line) : Prop := ∀ n, text.length < n → lines n text = some found

namespace ReadsAs

theorem of_succ {text : List Char} {found : List Line}
    (h : ∀ n, text.length ≤ n → lines (n + 1) text = some found) : ReadsAs text found := by
  intro n hn
  cases n with
  | zero => exact absurd hn (Nat.not_lt_zero _)
  | succ n => exact h n (Nat.le_of_lt_succ hn)

theorem nil : ReadsAs [] [] := of_succ fun _ _ => rfl

/-- An empty line says nothing. -/
theorem blank {rest : List Char} {found : List Line} (h : ReadsAs rest found) : ReadsAs ('\n' :: rest) found :=
  of_succ fun n hn => h n hn

/-- One line, and what is read behind it. -/
theorem cons {text rest : List Char} {first : Line} {found : List Line} {c : Char} {cs : List Char}
    (htext : text = c :: cs) (hspace : isSpace c = false) (hend : ∀ text, lineEnd? (c :: text) = none)
    (hline : line (text ++ rest) = some (first, rest)) (h : ReadsAs rest found) :
    ReadsAs (text ++ rest) (first :: found) := by
  subst htext
  rw [List.cons_append] at hline ⊢
  refine of_succ fun n hn => ?_
  rw [lines, skipSpaces_of_not_isSpace hspace]
  dsimp only
  rw [hend]
  dsimp only
  rw [hline]
  dsimp only
  rw [h n (by simp at hn; omega)]
  rfl

end ReadsAs

theorem lineEnd?_eq_none {c : Char} (hspace : isSpace c = false) (hcomment : c ≠ '#') (hfeed : c ≠ '\n')
    (hreturn : c ≠ '\r') (text : List Char) : lineEnd? (c :: text) = none := by
  have hskip : skipComment (c :: text) = c :: text := by
    rw [skipComment.eq_def]
    split
    · rename_i heq
      exact absurd (List.cons.inj heq).1 hcomment
    · rfl
  rw [lineEnd?, skipSpaces_of_not_isSpace hspace, hskip]
  dsimp only
  rw [newline?.eq_def]
  split
  · rename_i heq
    exact absurd (List.cons.inj heq).1 hfeed
  · rename_i heq
    exact absurd (List.cons.inj heq).1 hreturn
  · rfl

/-! ### What is written is read -/

/-- No plain value begins with a bracket, a brace or a space. -/
theorem scalar_eq_none {c : Char} (hc : c ∈ ['[', '\x7b', ' ', '\t']) (text : List Char) : scalar (c :: text) = none := by
  simp only [List.mem_cons, List.not_mem_nil, or_false] at hc
  have hmoment : moment (c :: text) = none := by
    refine moment_of_not_isDigit ?_ text
    obtain rfl | rfl | rfl | rfl := hc <;> rfl
  rw [scalar.eq_def]
  split
  case h_8 =>
    rw [hmoment]
    obtain rfl | rfl | rfl | rfl := hc <;> rfl
  all_goals
    rename_i heq
    obtain ⟨rfl, _⟩ := List.cons.inj heq
    exact absurd hc (by decide)

theorem exists_cons_writePlain {v : Value} {text : String} (h : writePlain v = some text) :
    ∃ c cs, text.toList = c :: cs ∧ c ∉ ['[', '\x7b', ' ', '\t'] := by
  have hscalar := scalar_writePlain h []
  cases htext : text.toList with
  | nil =>
    rw [htext] at hscalar
    cases hscalar
  | cons c cs =>
    refine ⟨c, cs, rfl, fun hc => ?_⟩
    rw [htext, List.cons_append, scalar_eq_none hc] at hscalar
    cases hscalar

/-- What is written for a plain value is not taken for an array or a table. -/
theorem value_writePlain {v : Value} {text : String} (h : writePlain v = some text) (depth : Nat) (rest : List Char) :
    value depth (text.toList ++ '\n' :: rest) = some (v, '\n' :: rest) := by
  obtain ⟨c, cs, hcs, hc⟩ := exists_cons_writePlain h
  have hscalar := scalar_writePlain h rest
  rw [hcs, List.cons_append] at hscalar ⊢
  rw [value.eq_def]
  split
  · rename_i heq
    obtain ⟨rfl, _⟩ := List.cons.inj heq
    exact absurd (by decide) hc
  · rename_i heq
    obtain ⟨rfl, _⟩ := List.cons.inj heq
    exact absurd (by decide) hc
  · exact hscalar

theorem toList_writeEntry {name : String} {v : Value} {line : String} (h : writeEntry name v = some line) :
    ∃ text, writePlain v = some text ∧ line.toList = name.toList ++ ' ' :: '=' :: ' ' :: (text.toList ++ ['\n']) := by
  obtain ⟨text, htext, rfl⟩ := Option.map_eq_some_iff.mp h
  exact ⟨text, htext, by simp [toString]⟩

/-- A line that was written for an entry assigns its value to its name. -/
theorem ReadsAs.entry {name : String} {v : Value} {text : String} (hname : IsBare name)
    (h : writeEntry name v = some text) {rest : List Char} {found : List Line} (hrest : ReadsAs rest found) :
    ReadsAs (text.toList ++ rest) (.assigns [] name v :: found) := by
  obtain ⟨plain, hplain, htext⟩ := toList_writeEntry h
  have hkey : key (name.toList ++ ' ' :: '=' :: ' ' :: (plain.toList ++ '\n' :: rest)) =
      some (([], name), '=' :: ' ' :: (plain.toList ++ '\n' :: rest)) :=
    key_bare hname (by decide) rfl (by decide)
  have hskip : skipSpaces (' ' :: (plain.toList ++ '\n' :: rest)) = plain.toList ++ '\n' :: rest := by
    obtain ⟨c, cs, hcs, hc⟩ := exists_cons_writePlain hplain
    have hspace : isSpace c = false := by
      simp only [List.mem_cons, List.not_mem_nil, or_false, not_or] at hc
      simp [isSpace, hc]
    rw [hcs]
    exact skipSpaces_of_not_isSpace hspace _
  have hpair : pair (value depthLimit) (name.toList ++ ' ' :: '=' :: ' ' :: (plain.toList ++ '\n' :: rest)) =
      some ((([], name), v), '\n' :: rest) := by
    rw [pair, hkey]
    show ((value depthLimit (skipSpaces (' ' :: (plain.toList ++ '\n' :: rest)))).map _) = _
    rw [hskip, value_writePlain hplain]
    rfl
  obtain ⟨c, cs, hcs, hc⟩ := hname.exists_cons
  have hends : ∀ text, lineEnd? (c :: text) = none :=
    lineEnd?_eq_none (isSpace_of_isBareKeyChar hc) (ne_of_isBareKeyChar hc (by decide))
      (ne_of_isBareKeyChar hc (by decide)) (ne_of_isBareKeyChar hc (by decide))
  refine ReadsAs.cons (htext.trans (by rw [hcs]; rfl)) (isSpace_of_isBareKeyChar hc) hends ?_ hrest
  have htext' : text.toList ++ rest = name.toList ++ ' ' :: '=' :: ' ' :: (plain.toList ++ '\n' :: rest) := by
    simp [htext]
  rw [htext', line.eq_def]
  split
  · rename_i heq
    rw [hcs] at heq
    exact absurd (List.cons.inj heq).1 (ne_of_isBareKeyChar hc (by decide))
  · rename_i heq
    rw [hcs] at heq
    exact absurd (List.cons.inj heq).1 (ne_of_isBareKeyChar hc (by decide))
  · rw [hpair]
    rfl

/-- A header opens its table. -/
theorem ReadsAs.header {name : String} (hname : IsBare name) {rest : List Char} {found : List Line}
    (hrest : ReadsAs rest found) : ReadsAs ('[' :: (name.toList ++ [']', '\n']) ++ rest) (.opens [] name :: found) := by
  have hkey : key (name.toList ++ ']' :: '\n' :: rest) = some (([], name), ']' :: '\n' :: rest) :=
    key_bare hname (by decide) rfl (by decide)
  obtain ⟨c, cs, hcs, hc⟩ := hname.exists_cons
  refine ReadsAs.cons rfl rfl (fun _ => rfl) ?_ hrest
  have htext : '[' :: (name.toList ++ [']', '\n']) ++ rest = '[' :: (name.toList ++ ']' :: '\n' :: rest) := by simp
  rw [htext, line.eq_def]
  split
  · rename_i heq
    rw [hcs] at heq
    exact absurd (List.cons.inj (List.cons.inj heq).2).1 (ne_of_isBareKeyChar hc (by decide))
  · rename_i heq
    obtain ⟨_, rfl⟩ := List.cons.inj heq
    rw [hkey]
    rfl
  · rename_i hnot
    exact absurd rfl (hnot _)

/-! ### Tables -/

theorem mapM_cons_eq_some {α β : Type} {f : α → Option β} {a : α} {rest : List α} {found : List β}
    (h : (a :: rest).mapM f = some found) : ∃ b bs, f a = some b ∧ rest.mapM f = some bs ∧ found = b :: bs := by
  rw [List.mapM_cons] at h
  obtain ⟨b, hb, h⟩ := Option.bind_eq_some_iff.mp h
  obtain ⟨bs, hbs, h⟩ := Option.bind_eq_some_iff.mp h
  exact ⟨b, bs, hb, hbs, (Option.some.inj h).symm⟩

/-- A table with a name. -/
abbrev Section : Type := String × List (String × Value)

/-- The lines that are written for a table. -/
def linesOf (table : Section) : List Line :=
  .opens [] table.1 :: table.2.map fun (name, v) => .assigns [] name v

/-- Tables whose names need no quotes, nor those of their entries, and are all different. -/
structure HasPlainNames (tables : List Section) : Prop where
  bare : ∀ table ∈ tables, IsBare table.1
  distinct : (tables.map (·.1)).Nodup
  bareEntries : ∀ table ∈ tables, ∀ entry ∈ table.2, IsBare entry.1
  distinctEntries : ∀ table ∈ tables, (table.2.map (·.1)).Nodup

theorem ReadsAs.entries {entries : List (String × Value)} (hbare : ∀ entry ∈ entries, IsBare entry.1)
    {texts : List String} (h : entries.mapM (fun (name, v) => writeEntry name v) = some texts) {rest : List Char}
    {found : List Line} (hrest : ReadsAs rest found) :
    ReadsAs (texts.flatMap String.toList ++ rest) (entries.map (fun (name, v) => .assigns [] name v) ++ found) := by
  induction entries generalizing texts with
  | nil =>
    cases h
    exact hrest
  | cons entry entries ih =>
    obtain ⟨text, texts, htext, htexts, rfl⟩ := mapM_cons_eq_some h
    have hbehind := ih (fun entry hmem => hbare entry (by simp [hmem])) htexts
    rw [List.flatMap_cons, List.append_assoc]
    exact .entry (hbare entry (by simp)) htext hbehind

theorem ReadsAs.table {table : Section} (hbare : IsBare table.1) (hentries : ∀ entry ∈ table.2, IsBare entry.1)
    {text : String} (h : writeTable table.1 table.2 = some text) {rest : List Char} {found : List Line}
    (hrest : ReadsAs rest found) : ReadsAs (text.toList ++ rest) (linesOf table ++ found) := by
  obtain ⟨texts, htexts, rfl⟩ := Option.map_eq_some_iff.mp h
  have htext : (s!"[{table.1}]\n{String.join texts}").toList =
      '[' :: (table.1.toList ++ [']', '\n']) ++ texts.flatMap String.toList := by
    simp [toString, String.toList_join]
  rw [htext, List.append_assoc]
  exact .header hbare (.entries hentries htexts hrest)

/-- The text of tables is read as their lines. -/
theorem readsAs_writeTables {tables : List Section} (hbare : ∀ table ∈ tables, IsBare table.1)
    (hentries : ∀ table ∈ tables, ∀ entry ∈ table.2, IsBare entry.1) {text : String}
    (h : writeTables tables = some text) : ReadsAs text.toList (tables.flatMap linesOf) := by
  obtain ⟨texts, htexts, rfl⟩ := Option.map_eq_some_iff.mp h
  clear h
  induction tables generalizing texts with
  | nil =>
    cases htexts
    exact .nil
  | cons table tables ih =>
    obtain ⟨first, texts, hfirst, hothers, rfl⟩ := mapM_cons_eq_some htexts
    have hbehind := ih (fun table hmem => hbare table (by simp [hmem]))
      (fun table hmem => hentries table (by simp [hmem])) texts hothers
    have htable {rest : List Char} {found : List Line} (hrest : ReadsAs rest found) :
        ReadsAs (first.toList ++ rest) (linesOf table ++ found) :=
      .table (hbare table (by simp)) (hentries table (by simp)) hfirst hrest
    rw [List.flatMap_cons]
    cases texts with
    | nil =>
      have hlast := htable hbehind
      simpa using hlast
    | cons second texts =>
      have hjoined : ("\n".intercalate (first :: second :: texts)).toList =
          first.toList ++ '\n' :: ("\n".intercalate (second :: texts)).toList := by
        simp [String.intercalate_cons_cons]
      rw [hjoined]
      exact htable hbehind.blank

/-! ### The tables that lines describe -/

/-- The node of a table that has been opened by its header. -/
def nodeOf (entries : List (String × Value)) : Node := .table .header (entries.map fun (name, v) => (name, .value v))

def nodesOf (tables : List Section) : Entries := tables.map fun (name, entries) => (name, nodeOf entries)

theorem toValues_nodesOf (tables : List Section) :
    Entries.toValues (nodesOf tables) = tables.map fun (name, entries) => (name, .table entries) := by
  have hentries : ∀ entries : List (String × Value),
      Entries.toValues (entries.map fun (name, v) => (name, Node.value v)) = entries := by
    intro entries
    induction entries with
    | nil => rfl
    | cons entry rest ih =>
      rw [List.map_cons, Entries.toValues, ih]
      rfl
  induction tables with
  | nil => rfl
  | cons table rest ih =>
    rw [nodesOf, List.map_cons, Entries.toValues, nodeOf, Node.toValue, hentries]
    exact congrArg _ ih

namespace Entries

variable {name : String} {entries : Entries}

theorem put_of_new (h : name ∉ entries.map (·.1)) (node : Node) : put name node entries = entries ++ [(name, node)] := by
  induction entries with
  | nil => rfl
  | cons entry rest ih =>
    simp only [List.map_cons, List.mem_cons, not_or] at h
    rw [put, if_neg (Ne.symm h.1), ih h.2]
    rfl

theorem put_last (h : name ∉ entries.map (·.1)) (node node' : Node) :
    put name node (entries ++ [(name, node')]) = entries ++ [(name, node)] := by
  induction entries with
  | nil => simp [put]
  | cons entry rest ih =>
    simp only [List.map_cons, List.mem_cons, not_or] at h
    rw [List.cons_append, put, if_neg (Ne.symm h.1), ih h.2]
    rfl

theorem lookup_of_new (h : name ∉ entries.map (·.1)) : entries.lookup name = none := by
  rw [List.lookup_eq_none_iff]
  intro entry hmem
  have hne : name ≠ entry.1 := fun heq => h (heq ▸ List.mem_map_of_mem hmem)
  simpa using hne

theorem lookup_last (h : name ∉ entries.map (·.1)) (node : Node) :
    (entries ++ [(name, node)]).lookup name = some node := by
  rw [List.lookup_append, lookup_of_new h]
  simp

end Entries

namespace Document

variable {before : Entries} {name : String}

/-- The document while the entries of its last table are read. -/
def filling (before : Entries) (name : String) (entries : List (String × Value)) : Document where
  entries := before ++ [(name, nodeOf entries)]
  here := [name]

theorem add_opens (h : name ∉ before.map (·.1)) (here : List String) :
    add ⟨before, here⟩ (.opens [] name) = some (filling before name []) := by
  rw [add, Entries.modifyAt, Entries.openTable, Entries.lookup_of_new h]
  dsimp only
  rw [Entries.put_of_new h]
  rfl

theorem add_assigns (h : name ∉ before.map (·.1)) {entries : List (String × Value)} {key : String}
    (hkey : key ∉ entries.map (·.1)) (v : Value) :
    add (filling before name entries) (.assigns [] key v) = some (filling before name (entries ++ [(key, v)])) := by
  have hnew : key ∉ (entries.map fun (name, v) => (name, Node.value v)).map (·.1) := by
    simpa [Function.comp_def] using hkey
  have hassign : Entries.assign key v [] (entries.map fun (name, v) => (name, Node.value v)) =
      some ((entries ++ [(key, v)]).map fun (name, v) => (name, Node.value v)) := by
    simp [Entries.assign, Entries.lookup_of_new hnew, Entries.put_of_new hnew]
  rw [add, filling, Entries.modifyAt, Entries.lookup_last h, nodeOf]
  dsimp only
  rw [Entries.modifyAt, hassign]
  dsimp only [Option.map_some]
  rw [Entries.put_last h]
  rfl

theorem foldlM_assigns (h : name ∉ before.map (·.1)) {entries found : List (String × Value)}
    (hdistinct : ((entries ++ found).map (·.1)).Nodup) :
    (found.map fun (key, v) => Line.assigns [] key v).foldlM add (filling before name entries) =
      some (filling before name (entries ++ found)) := by
  induction found generalizing entries with
  | nil => simp
  | cons entry rest ih =>
    have hsplit : entries ++ entry :: rest = entries ++ [entry] ++ rest := by simp
    have hkey : entry.1 ∉ entries.map (·.1) := by
      rw [List.map_append, List.nodup_append] at hdistinct
      exact fun hmem => hdistinct.2.2 _ hmem _ (by simp) rfl
    rw [List.map_cons, List.foldlM_cons, add_assigns h hkey, hsplit]
    exact ih (hsplit ▸ hdistinct)

theorem foldlM_linesOf (before : Entries) {tables : List Section}
    (hentries : ∀ table ∈ tables, (table.2.map (·.1)).Nodup)
    (hdistinct : (before.map (·.1) ++ tables.map (·.1)).Nodup) (here : List String) :
    ∃ here', (tables.flatMap linesOf).foldlM add ⟨before, here⟩ = some ⟨before ++ nodesOf tables, here'⟩ := by
  induction tables generalizing before here with
  | nil => exact ⟨here, by simp [nodesOf]⟩
  | cons table rest ih =>
    have hnew : table.1 ∉ before.map (·.1) := by
      rw [List.nodup_append] at hdistinct
      exact fun hmem => hdistinct.2.2 _ hmem _ (by simp) rfl
    have hfilled : (linesOf table).foldlM add ⟨before, here⟩ = some (filling before table.1 table.2) := by
      rw [linesOf, List.foldlM_cons, add_opens hnew]
      exact foldlM_assigns hnew (hentries table (by simp))
    obtain ⟨here', hrest⟩ := ih (before ++ [(table.1, nodeOf table.2)])
      (fun table hmem => hentries table (by simp [hmem])) (by simpa using hdistinct) [table.1]
    refine ⟨here', ?_⟩
    rw [List.flatMap_cons, List.foldlM_append, hfilled]
    refine hrest.trans ?_
    simp [nodesOf]

/-- The lines of tables describe them. -/
theorem ofLines_linesOf {tables : List Section} (hentries : ∀ table ∈ tables, (table.2.map (·.1)).Nodup)
    (hdistinct : (tables.map (·.1)).Nodup) :
    ofLines (tables.flatMap linesOf) = some (tables.map fun (name, entries) => (name, .table entries)) := by
  obtain ⟨here, hlines⟩ := foldlM_linesOf [] hentries hdistinct []
  rw [ofLines, hlines, Option.map_some]
  dsimp only
  rw [List.nil_append, toValues_nodesOf]

end Document

/-- The text of tables begins with a header, if at all. -/
theorem skipMark_writeTables {tables : List Section} {text : String} (h : writeTables tables = some text) :
    skipMark text.toList = text.toList := by
  obtain ⟨texts, htexts, rfl⟩ := Option.map_eq_some_iff.mp h
  cases tables with
  | nil =>
    cases htexts
    rfl
  | cons table rest =>
    obtain ⟨_, texts, hfirst, _, rfl⟩ := mapM_cons_eq_some htexts
    obtain ⟨lines, _, rfl⟩ := Option.map_eq_some_iff.mp hfirst
    cases texts <;> simp [toString, String.intercalate_cons_cons, skipMark]

/-- What is written for tables is read as these tables. -/
theorem parse?_writeTables {tables : List Section} (htables : HasPlainNames tables) {text : String}
    (h : writeTables tables = some text) :
    parse? text = some (tables.map fun (name, entries) => (name, .table entries)) := by
  have hlines := readsAs_writeTables htables.bare htables.bareEntries h
  rw [parse?, skipMark_writeTables h, hlines _ (Nat.lt_succ_self _)]
  exact Document.ofLines_linesOf htables.distinctEntries htables.distinct

theorem mapM_eq_none_iff {α β : Type} {f : α → Option β} {l : List α} : l.mapM f = none ↔ ∃ a ∈ l, f a = none := by
  induction l with
  | nil => simp
  | cons a rest ih =>
    rw [List.mapM_cons]
    cases hfirst : f a with
    | none => simp [hfirst]
    | some b =>
      cases hrest : rest.mapM f with
      | none => simpa [hfirst, hrest] using ih.mp hrest
      | some bs => simp_all

/-- Tables are written unless one of their values cannot be. -/
theorem writeTables_eq_none_iff {tables : List Section} :
    writeTables tables = none ↔ ∃ table ∈ tables, ∃ entry ∈ table.2, writePlain entry.2 = none := by
  simp only [writeTables, writeTable, writeEntry, Option.map_eq_none_iff, mapM_eq_none_iff]

end Cadence.Toml
