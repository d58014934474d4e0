import Cadence.Proofs.Engine.Presentation
import Cadence.Session.ScreenOp

/-!
What the readers of a screen are told. Each of them gets the notices of the flips that it lives to see, in their order,
but for those at which its mailbox is full; who lags behind is never given up, and who has left is given up at the next
flip.
-/

namespace Cadence

namespace Screen

variable (s : Screen)

/-- What waits in the mailbox of a reader. -/
def unread (reader : Nat) : List Notice := (s.mailboxes[reader]?.map (·.unread)).getD []

/-- The screen has not given up the mailbox of a reader. -/
def WritesTo (reader : Nat) : Prop := ∃ box, s.mailboxes[reader]? = some box ∧ box.reader ≠ .gone

theorem unread_eq {reader : Nat} {box : Mailbox} (h : s.mailboxes[reader]? = some box) :
    s.unread reader = box.unread := by
  rw [unread, h]
  rfl

@[simp] theorem mailboxes_modifyList (side : Side) (f : DrawList → DrawList) :
    (s.modifyList side f).mailboxes = s.mailboxes := by cases side <;> rfl

@[simp] theorem mailboxSize_modifyList (side : Side) (f : DrawList → DrawList) :
    (s.modifyList side f).mailboxSize = s.mailboxSize := by cases side <;> rfl

@[simp] theorem frame_modifyList (side : Side) (f : DrawList → DrawList) :
    (s.modifyList side f).frame = s.frame := by cases side <;> rfl

theorem mailboxes_flip : s.flip.2.mailboxes = s.mailboxes.map (Mailbox.deliver s.mailboxSize s.flip.1) := by
  simp [flip]

end Screen

namespace Session

/-- An operation with its answer, and the screen as it was found. -/
structure Exchange where
  screen : Screen
  op : ScreenOp
  answer : Except String ScreenAnswer

namespace Exchange

variable (x : Exchange)

def subscribes : Bool := x.op matches .subscribe

def leaves (reader : Nat) : Bool :=
  match x.op with
  | .unsubscribe other => other = reader
  | _ => false

/-- What a reader has taken out of its mailbox. -/
def received (reader : Nat) : List Notice :=
  match x.op, x.answer with
  | .receive other _, .ok (.notices (some notices)) => if other = reader then notices else []
  | _, _ => []

/-- The notice of a flip. -/
def notice? : Option Notice :=
  match x.op, x.answer with
  | .flip, .ok (.notice notice) => some notice
  | _, _ => none

/-- The notice that a reader gets of a flip, unless as many as fit its mailbox are unread. -/
def due (capacity reader : Nat) : List Notice :=
  if (x.screen.unread reader).length = capacity then [] else x.notice?.toList

end Exchange

/-- The exchanges since a reader has subscribed. Readers are numbered in the order in which they do. -/
def since : Nat → List Exchange → List Exchange
  | _, [] => []
  | reader, x :: past =>
    match x.subscribes, reader with
    | true, 0 => past
    | true, n + 1 => since n past
    | false, reader => since reader past

/-- A screen and what has been done to it. -/
structure Watched where
  screen : Screen
  past : List Exchange := []

namespace Watched

def perform (w : Watched) (host : Host) (op : ScreenOp) : Watched where
  screen := (op.perform host w.screen).2
  past := w.past ++ [⟨w.screen, op, (op.perform host w.screen).1⟩]

def run (w : Watched) (uses : List (Host × ScreenOp)) : Watched := uses.foldl (fun w (host, op) => w.perform host op) w

variable (w : Watched)

/-- The readers who have subscribed. -/
def joined : Nat := w.past.countP (·.subscribes)

/-- A reader has left for good. -/
def left (reader : Nat) : Bool := (since reader w.past).any (·.leaves reader)

def received (reader : Nat) : List Notice := (since reader w.past).flatMap (·.received reader)

/-- The notices that a reader ought to have got. -/
def due (capacity reader : Nat) : List Notice := (since reader w.past).flatMap (·.due capacity reader)

end Watched

/-! ### What has happened since -/

variable {past : List Exchange} {x : Exchange} {reader capacity : Nat}

theorem since_append_of_lt (h : reader < past.countP (·.subscribes)) (x : Exchange) :
    since reader (past ++ [x]) = since reader past ++ [x] := by
  fun_induction since reader past with
  | case1 => simp at h
  | case2 x' past hsub => simp [since, hsub]
  | case3 x' past n hsub ih =>
    rw [List.countP_cons, hsub] at h
    simpa [since, hsub] using ih (by simpa using h)
  | case4 x' past reader hsub ih =>
    rw [List.countP_cons, hsub] at h
    simpa [since, hsub] using ih (by simpa using h)

/-- Nothing has happened since a reader has subscribed if it has not, or only just. -/
theorem since_append_of_le (h : past.countP (·.subscribes) ≤ reader) (x : Exchange) :
    since reader (past ++ [x]) = [] := by
  fun_induction since reader past with
  | case1 reader => cases hsub : x.subscribes <;> cases reader <;> simp [since, hsub]
  | case2 x' past hsub => simp [hsub] at h
  | case3 x' past n hsub ih =>
    rw [List.countP_cons, hsub] at h
    simpa [since, hsub] using ih (by simpa using h)
  | case4 x' past reader hsub ih =>
    rw [List.countP_cons, hsub] at h
    simpa [since, hsub] using ih (by simpa using h)

theorem since_suffix (reader : Nat) (past : List Exchange) : since reader past <:+ past := by
  fun_induction since reader past with
  | case1 => exact List.nil_suffix
  | case2 x past => exact List.suffix_cons x past
  | case3 x past _ _ ih => exact ih.trans (List.suffix_cons x past)
  | case4 x past _ _ ih => exact ih.trans (List.suffix_cons x past)

/-! ### One reader -/

/-- What an exchange does to the mailbox of a reader who is there. -/
structure Advances (x : Exchange) (reader : Nat) (box box' : Screen.Mailbox) : Prop where
  reading : box'.reader = .reading ↔ box.reader = .reading ∧ x.leaves reader = false
  account : box'.reader = .reading → box.unread.length ≤ x.screen.mailboxSize →
    x.received reader ++ box'.unread = box.unread ++ x.due x.screen.mailboxSize reader
  bounded : box.unread.length ≤ x.screen.mailboxSize → box'.unread.length ≤ x.screen.mailboxSize

/-- A mailbox that an exchange has nothing to do with stays as it is. -/
theorem Advances.untouched {box : Screen.Mailbox} (hleaves : x.leaves reader = false)
    (hreceived : x.received reader = []) (hnotice : x.notice? = none) : Advances x reader box box where
  reading := by simp [hleaves]
  account _ _ := by simp [hreceived, Exchange.due, hnotice]
  bounded := id

/-- The mailbox of a reader holds what the reader ought to have got and has not received. -/
structure Serves (capacity : Nat) (w : Watched) (reader : Nat) (box : Screen.Mailbox) : Prop where
  reading : box.reader = .reading ↔ w.left reader = false
  account : box.reader = .reading → w.received reader ++ box.unread = w.due capacity reader
  bounded : box.unread.length ≤ capacity

variable {w w' : Watched} {box box' : Screen.Mailbox}

theorem Serves.advance (h : Serves x.screen.mailboxSize w reader box) (hjoined : reader < w.joined)
    (hpast : w'.past = w.past ++ [x]) (hbox : Advances x reader box box') :
    Serves x.screen.mailboxSize w' reader box' where
  reading := by
    rw [hbox.reading, h.reading, Watched.left, Watched.left, hpast, since_append_of_lt hjoined]
    simp
  account hreading := by
    have hbefore := h.account (hbox.reading.mp hreading).1
    simp only [Watched.received, Watched.due, hpast, since_append_of_lt hjoined, List.flatMap_append,
      List.flatMap_singleton] at hbefore ⊢
    rw [List.append_assoc, hbox.account hreading h.bounded, ← List.append_assoc, hbefore]
  bounded := hbox.bounded h.bounded

theorem Serves.new (hjoined : w.joined ≤ reader) (hpast : w'.past = w.past ++ [x]) : Serves capacity w' reader {} where
  reading := by simp [Watched.left, hpast, since_append_of_le hjoined]
  account _ := by simp [Watched.received, Watched.due, hpast, since_append_of_le hjoined]
  bounded := Nat.zero_le _

/-! ### One exchange -/

/-- What an exchange does to the mailboxes, and which number it gives a notice. -/
structure Attends (x : Exchange) (s' : Screen) : Prop where
  mailboxSize : s'.mailboxSize = x.screen.mailboxSize
  size : s'.mailboxes.size = x.screen.mailboxes.size + if x.subscribes then 1 else 0
  mailbox : ∀ reader box', s'.mailboxes[reader]? = some box' →
    (∃ box, x.screen.mailboxes[reader]? = some box ∧ Advances x reader box box') ∨
      reader = x.screen.mailboxes.size ∧ box' = {}
  frame : x.screen.frame ≤ s'.frame
  number : ∀ notice, x.notice? = some notice → x.screen.frame < notice.frame ∧ notice.frame ≤ s'.frame

/-- An exchange that has nothing to do with the readers. -/
structure Exchange.IsQuiet (x : Exchange) (s' : Screen) : Prop where
  mailboxes : s'.mailboxes = x.screen.mailboxes
  mailboxSize : s'.mailboxSize = x.screen.mailboxSize
  frame : s'.frame = x.screen.frame
  subscribes : x.subscribes = false
  leaves : ∀ reader, x.leaves reader = false
  received : ∀ reader, x.received reader = []
  notice : x.notice? = none

theorem Exchange.IsQuiet.attends {s' : Screen} (h : x.IsQuiet s') : Attends x s' where
  mailboxSize := h.mailboxSize
  size := by rw [h.mailboxes, h.subscribes]; rfl
  mailbox reader box hbox :=
    .inl ⟨box, h.mailboxes ▸ hbox, .untouched (h.leaves reader) (h.received reader) h.notice⟩
  frame := Nat.le_of_eq h.frame.symm
  number notice hnotice := by rw [h.notice] at hnotice; cases hnotice

/-- A flip puts its notice into the mailbox of a reader who is there, if it fits. -/
theorem advances_flip {s : Screen} (hbox : s.mailboxes[reader]? = some box) :
    Advances ⟨s, .flip, .ok (.notice s.flip.1)⟩ reader box (box.deliver s.mailboxSize s.flip.1) := by
  have hunread := s.unread_eq hbox
  obtain ⟨state, unread⟩ := box
  cases state with
  | reading =>
    by_cases hfits : unread.length < s.mailboxSize
    · have hnotfull : unread.length ≠ s.mailboxSize := Nat.ne_of_lt hfits
      constructor
      · simp [Screen.Mailbox.deliver, hfits, Exchange.leaves]
      · simp [Screen.Mailbox.deliver, hfits, Exchange.received, Exchange.due, hunread, hnotfull, Exchange.notice?]
      · intro _
        simp only [Screen.Mailbox.deliver, hfits, if_true, List.length_append, List.length_singleton]
        exact Nat.succ_le_of_lt hfits
    · constructor
      · simp [Screen.Mailbox.deliver, hfits, Exchange.leaves]
      · intro _ hbounded
        have hfull : unread.length = s.mailboxSize := Nat.le_antisymm hbounded (Nat.not_lt.mp hfits)
        simp [Screen.Mailbox.deliver, Exchange.received, Exchange.due, hunread, hfull]
      · simp [Screen.Mailbox.deliver, hfits]
  | leaving => constructor <;> simp [Screen.Mailbox.deliver]
  | gone => constructor <;> simp [Screen.Mailbox.deliver]

theorem attends_flip (s : Screen) : Attends ⟨s, .flip, .ok (.notice s.flip.1)⟩ s.flip.2 where
  mailboxSize := by simp [Screen.flip]
  size := by simp [Screen.mailboxes_flip, Exchange.subscribes]
  mailbox reader box' hbox' := by
    rw [Screen.mailboxes_flip, Array.getElem?_map, Option.map_eq_some_iff] at hbox'
    obtain ⟨box, hbox, rfl⟩ := hbox'
    exact .inl ⟨box, hbox, advances_flip hbox⟩
  frame := Nat.le_succ _
  number notice hnotice := by
    obtain rfl : s.flip.1 = notice := by simpa [Exchange.notice?] using hnotice
    exact ⟨Nat.lt_succ_self _, Nat.le_refl _⟩

theorem attends_subscribe (s : Screen) (answer : Except String ScreenAnswer) :
    Attends ⟨s, .subscribe, answer⟩ s.subscribe where
  mailboxSize := rfl
  size := by simp [Screen.subscribe, Exchange.subscribes]
  mailbox reader box' hbox' := by
    rw [Screen.subscribe, Array.getElem?_push] at hbox'
    split at hbox'
    · rename_i hreader
      exact .inr ⟨hreader, (Option.some.inj hbox').symm⟩
    · exact .inl ⟨box', hbox', .untouched rfl rfl rfl⟩
  frame := Nat.le_refl _
  number := nofun

theorem attends_unsubscribe (s : Screen) (other : Nat) (answer : Except String ScreenAnswer) :
    Attends ⟨s, .unsubscribe other, answer⟩ (s.unsubscribe other) where
  mailboxSize := rfl
  size := by simp [Screen.unsubscribe, Exchange.subscribes]
  mailbox reader box' hbox' := by
    rw [Screen.unsubscribe, Array.getElem?_modify] at hbox'
    by_cases hother : other = reader
    · rw [if_pos hother, Option.map_eq_some_iff] at hbox'
      obtain ⟨box, hbox, rfl⟩ := hbox'
      refine .inl ⟨box, hbox, ?_⟩
      by_cases hreading : box.reader = .reading <;> constructor <;> simp [hreading, hother, Exchange.leaves]
    · rw [if_neg hother] at hbox'
      exact .inl ⟨box', hbox', .untouched (decide_eq_false hother) rfl rfl⟩
  frame := Nat.le_refl _
  number := nofun

theorem attends_receive (s : Screen) (other : Nat) (limit : Option Nat) :
    Attends ⟨s, .receive other limit, .ok (.notices (s.receive other limit).1)⟩ (s.receive other limit).2 := by
  unfold Screen.receive
  split
  · rename_i unread hother
    refine ⟨rfl, by simp [Exchange.subscribes], fun reader box' hbox' => .inl ?_, Nat.le_refl _, nofun⟩
    rw [Array.getElem?_modify] at hbox'
    by_cases hreader : other = reader
    · subst hreader
      rw [if_pos rfl, hother] at hbox'
      obtain rfl := Option.some.inj hbox'
      refine ⟨_, hother, ?_, fun _ _ => ?_, fun hbounded => ?_⟩
      · simp [Exchange.leaves]
      · simp [Exchange.received, Exchange.due, Exchange.notice?]
      · exact Nat.le_trans (by simp) hbounded
    · rw [if_neg hreader] at hbox'
      exact ⟨box', hbox', .untouched rfl (by simp [Exchange.received, hreader]) rfl⟩
  · exact Exchange.IsQuiet.attends ⟨rfl, rfl, rfl, rfl, fun _ => rfl, fun _ => rfl, rfl⟩

/-- Every exchange does to each mailbox what it has to. -/
theorem attends_perform (host : Host) (s : Screen) (op : ScreenOp) :
    Attends ⟨s, op, (op.perform host s).1⟩ (op.perform host s).2 := by
  cases op with
  | flip => exact attends_flip s
  | subscribe => exact attends_subscribe s _
  | unsubscribe reader => exact attends_unsubscribe s reader _
  | receive reader limit => exact attends_receive s reader limit
  | submit sketch =>
    unfold ScreenOp.perform
    dsimp only
    split
    · exact Exchange.IsQuiet.attends ⟨rfl, rfl, rfl, rfl, fun _ => rfl, fun _ => rfl, rfl⟩
    · refine Exchange.IsQuiet.attends ⟨?_, ?_, ?_, rfl, fun _ => rfl, fun _ => rfl, rfl⟩ <;> simp [Screen.submit]
  | submitAll sketches =>
    unfold ScreenOp.perform
    dsimp only
    split
    · exact Exchange.IsQuiet.attends ⟨rfl, rfl, rfl, rfl, fun _ => rfl, fun _ => rfl, rfl⟩
    · refine Exchange.IsQuiet.attends ⟨?_, ?_, ?_, rfl, fun _ => rfl, fun _ => rfl, rfl⟩ <;> simp [Screen.submitAll]
  | clearActive =>
    refine Exchange.IsQuiet.attends ⟨?_, ?_, ?_, rfl, fun _ => rfl, fun _ => rfl, rfl⟩ <;>
      simp [ScreenOp.perform, Screen.clearActive]
  | _ => exact Exchange.IsQuiet.attends ⟨rfl, rfl, rfl, rfl, fun _ => rfl, fun _ => rfl, rfl⟩

/-! ### Runs -/

/-- What holds of a screen and its readers at every moment. -/
structure Serving (capacity : Nat) (w : Watched) : Prop where
  mailboxSize : w.screen.mailboxSize = capacity
  joined : w.screen.mailboxes.size = w.joined
  serves : ∀ reader box, w.screen.mailboxes[reader]? = some box → Serves capacity w reader box
  ordered : (w.past.filterMap Exchange.notice?).Pairwise (·.frame < ·.frame)
  last : ∀ notice ∈ w.past.filterMap Exchange.notice?, notice.frame ≤ w.screen.frame

namespace Serving

theorem start (layered : Bool) (size : Nat) : Serving (max size 1) { screen := Screen.blank layered size } where
  mailboxSize := rfl
  joined := rfl
  serves reader box hbox := by simp [Screen.blank, Screen.withMailboxSize, Screen.withLayers] at hbox
  ordered := .nil
  last := nofun

theorem perform (h : Serving capacity w) (host : Host) (op : ScreenOp) : Serving capacity (w.perform host op) := by
  have hattends := attends_perform host w.screen op
  obtain ⟨rfl, hjoined, hserves, hordered, hlast⟩ := h
  refine ⟨hattends.mailboxSize, ?_, fun reader box' hbox' => ?_, ?_, ?_⟩
  · rw [Watched.joined, Watched.perform, List.countP_append, ← Watched.joined, ← hjoined, hattends.size]
    simp
  · obtain ⟨box, hbox, hadvances⟩ | ⟨rfl, rfl⟩ := hattends.mailbox reader box' hbox'
    · obtain ⟨hold, _⟩ := Array.getElem?_eq_some_iff.mp hbox
      exact (hserves reader box hbox).advance (hjoined ▸ hold) rfl hadvances
    · exact .new (Nat.le_of_eq hjoined.symm) rfl
  · rw [Watched.perform, List.filterMap_append, List.pairwise_append]
    refine ⟨hordered, ?_, fun notice hmem notice' hmem' => ?_⟩
    · rw [List.filterMap_cons]
      split <;> simp
    · have hnotice' : Exchange.notice? ⟨w.screen, op, (op.perform host w.screen).1⟩ = some notice' := by
        simpa using hmem'
      exact Nat.lt_of_le_of_lt (hlast notice hmem) (hattends.number notice' hnotice').1
  · intro notice hmem
    rw [Watched.perform, List.filterMap_append, List.mem_append] at hmem
    obtain hmem | hmem := hmem
    · exact Nat.le_trans (hlast notice hmem) hattends.frame
    · exact (hattends.number notice (by simpa using hmem)).2

theorem run (h : Serving capacity w) (uses : List (Host × ScreenOp)) : Serving capacity (w.run uses) := by
  induction uses generalizing w with
  | nil => exact h
  | cons use rest ih => exact ih (h.perform use.1 use.2)

/-- What a reader ought to have got are notices of flips, in their order. -/
theorem due_sublist (capacity reader : Nat) (w : Watched) :
    (w.due capacity reader).Sublist (w.past.filterMap Exchange.notice?) := by
  have hdue : ∀ past : List Exchange,
      (past.flatMap (·.due capacity reader)).Sublist (past.filterMap Exchange.notice?) := by
    intro past
    induction past with
    | nil => exact .slnil
    | cons x past ih =>
      have hx : (x.due capacity reader).Sublist x.notice?.toList := by
        unfold Exchange.due
        split
        · exact List.nil_sublist _
        · exact .refl _
      have hcons : (x :: past).filterMap Exchange.notice? = x.notice?.toList ++ past.filterMap Exchange.notice? := by
        cases hnotice : x.notice? <;> simp [hnotice]
      rw [List.flatMap_cons, hcons]
      exact hx.append ih
  exact (hdue _).trans ((since_suffix reader w.past).sublist.filterMap _)

theorem reader_deliver_ne_gone (capacity : Nat) (notice : Notice) (box : Screen.Mailbox) :
    (box.deliver capacity notice).reader ≠ .gone ↔ box.reader = .reading := by
  obtain ⟨state, unread⟩ := box
  cases state with
  | reading =>
    unfold Screen.Mailbox.deliver
    dsimp only
    split <;> simp
  | leaving => simp [Screen.Mailbox.deliver]
  | gone => simp [Screen.Mailbox.deliver]

/-- After a flip the screen writes to those who have not left. -/
theorem subscriberCount_flip (h : Serving capacity w) :
    w.screen.flip.2.subscriberCount = (List.range w.joined).countP fun reader => !w.left reader := by
  have hreaders : w.screen.mailboxes.toList.map (fun box => decide (box.reader = .reading)) =
      (List.range w.joined).map fun reader => !w.left reader := by
    refine List.ext_getElem (by simp [h.joined]) fun reader hlt _ => ?_
    rw [List.length_map, Array.length_toList] at hlt
    have hserves := h.serves reader _ (Array.getElem?_eq_getElem hlt)
    rw [List.getElem_map, List.getElem_map, List.getElem_range, Array.getElem_toList]
    cases hleft : w.left reader <;> simp [hserves.reading, hleft]
  have hcount : w.screen.flip.2.subscriberCount =
      (w.screen.mailboxes.toList.map fun box => decide (box.reader = .reading)).countP id := by
    rw [Screen.subscriberCount, Screen.mailboxes_flip, ← Array.countP_toList, Array.toList_map, List.countP_map,
      List.countP_map]
    refine List.countP_congr fun box _ => ?_
    simpa using reader_deliver_ne_gone w.screen.mailboxSize w.screen.flip.1 box
  rw [hcount, hreaders, List.countP_map]
  rfl

end Serving

/-- At every moment, what a reader who has not left has received and what is unread of it make up the notices of the
flips since it subscribed, in the order of their frames, but for those flips that found its mailbox full. The screen
has not given it up, and a flip gives up all others. -/
theorem notices_reach_readers (layered : Bool) (size : Nat) (uses : List (Host × ScreenOp)) :
    let capacity := max size 1
    let w := Watched.run { screen := Screen.blank layered size } uses
    (∀ reader < w.joined, w.left reader = false →
      w.screen.WritesTo reader ∧ (w.screen.unread reader).length ≤ capacity ∧
      w.received reader ++ w.screen.unread reader = w.due capacity reader ∧
      (w.due capacity reader).Pairwise (·.frame < ·.frame)) ∧
    w.screen.flip.2.subscriberCount = (List.range w.joined).countP fun reader => !w.left reader := by
  intro capacity w
  have hserving : Serving capacity w := (Serving.start layered size).run uses
  refine ⟨fun reader hjoined hstays => ?_, hserving.subscriberCount_flip⟩
  have hlt : reader < w.screen.mailboxes.size := hserving.joined ▸ hjoined
  have hbox := Array.getElem?_eq_getElem hlt
  have hserves := hserving.serves reader _ hbox
  have hreading := hserves.reading.mpr hstays
  rw [w.screen.unread_eq hbox]
  refine ⟨⟨_, hbox, by rw [hreading]; nofun⟩, hserves.bounded, hserves.account hreading, ?_⟩
  exact hserving.ordered.sublist (Serving.due_sublist capacity reader w)

/-- Of two readers with room for one notice, one leaves; the other lags behind once and misses the second flip. -/
theorem notices_reach_lagging_reader :
    let uses := [.subscribe, .subscribe, .unsubscribe 1, .flip, .flip, .receive 0 none, .flip].map fun op => (default, op)
    let w := Watched.run { screen := Screen.blank false 0 } uses
    0 < w.joined ∧ w.left 0 = false ∧ w.left 1 = true ∧ w.screen.WritesTo 0 ∧
      w.received 0 ++ w.screen.unread 0 = w.due 1 0 ∧ w.due 1 0 = [⟨1, 0⟩, ⟨3, 0⟩] := by
  intro uses w
  have hjoined : 0 < w.joined := by decide
  have hstays : w.left 0 = false := by decide
  obtain ⟨hwrites, _, haccount, _⟩ := (notices_reach_readers false 0 uses).1 0 hjoined hstays
  exact ⟨hjoined, hstays, by decide, hwrites, haccount, by decide +kernel⟩

end Session

end Cadence
