import QueryServer.Proofs.Server.Conversation
/-!
What a handler does, one thing after another, as its client and the store meet it: the order of
these acts, and how they hang together with the phase in which they leave the handler.
-/

namespace QueryServer.Handler

/-- What a handler does, as its client and the store meet it. -/
inductive Act where
  /-- A read of a frame has ended. -/
  | read (result : Reader.Result)
  | executed (c : Command) (r : Response)
  /-- The stream was offered what waits, and has accepted this of it. -/
  | accepted (bytes : Bytes)
  /-- The write of a reply has ended. -/
  | wrote (result : Except WriteFault Unit)
  deriving Repr

namespace Act

def taken? : Act → Option Command
  | read (.ok (some text)) => some ⟨text⟩
  | _ => none

def command? : Act → Option Command
  | executed c _ => some c
  | _ => none

def response? : Act → Option Response
  | executed _ r => some r
  | _ => none

def bytes : Act → Bytes
  | accepted bytes => bytes
  | _ => []

/-- A step to the next command: its frame is read, or it is executed. -/
def isForward : Act → Bool
  | read _ => true
  | executed _ _ => true
  | _ => false

/-- A read that gave no command, or a write that failed. -/
def isLast : Act → Bool
  | read (.ok (some _)) => false
  | read _ => true
  | wrote (.error _) => true
  | _ => false

end Act

/-- The commands that were read, those that were executed, their responses, and all bytes that the
stream has accepted. -/
def takenIn (acts : List Act) : List Command :=
  acts.filterMap Act.taken?

def commandsOf (acts : List Act) : List Command :=
  acts.filterMap Act.command?

def responsesOf (acts : List Act) : List Response :=
  acts.filterMap Act.response?

def acceptedIn (acts : List Act) : Bytes :=
  acts.flatMap Act.bytes

/-- How many responses are out to the last byte of their frames. -/
def delivered : Bytes → List Response → Nat
  | _, [] => 0
  | bytes, r :: rs =>
    if (Frame.encode r.render).isPrefixOf bytes then
      delivered (bytes.drop (Frame.encode r.render).length) rs + 1
    else 0

/-- What holds of the acts of a handler at each point. -/
structure Orderly (acts : List Act) : Prop where
  /-- At most one command was executed whose reply is not out to its last byte. -/
  lag : (commandsOf acts).length ≤ delivered (acceptedIn acts) (responsesOf acts) + 1
  /-- The stream has accepted replies one after another in the order of their commands. -/
  inOrder : acceptedIn acts <+: replies (responsesOf acts)
  /-- Commands are executed in the order in which they are read, each before the next is read. -/
  oneByOne : takenIn acts = commandsOf acts ∨ ∃ c, takenIn acts = commandsOf acts ++ [c]
  /-- Whenever a frame was read or a command executed, all replies were out. -/
  waits : ∀ before act later, acts = before ++ act :: later → act.isForward = true →
    acceptedIn before = replies (responsesOf before)
  /-- Nothing follows a read that gave no command, or a write that failed. -/
  ends : ∀ before act later, acts = before ++ act :: later → act.isLast = true → later = []

/-- How the acts of a handler, its phase and what waits to be sent belong together. -/
inductive Stage (acts : List Act) : Phase → Bool → Bytes → Prop where
  | reading (taken : takenIn acts = commandsOf acts)
      (out : acceptedIn acts = replies (responsesOf acts))
      (going : ∀ act ∈ acts, act.isLast = false) : Stage acts .reading false []
  | executing (c : Command) (taken : takenIn acts = commandsOf acts ++ [c])
      (out : acceptedIn acts = replies (responsesOf acts))
      (going : ∀ act ∈ acts, act.isLast = false) : Stage acts (.executing c) false []
  | replying (rs : List Response) (r : Response) (taken : takenIn acts = commandsOf acts)
      (responses : responsesOf acts = rs ++ [r]) (out : acceptedIn acts = replies rs)
      (going : ∀ act ∈ acts, act.isLast = false) : Stage acts (.replying r.render) false []
  | sending (rs : List Response) (r : Response) (part backlog : Bytes)
      (taken : takenIn acts = commandsOf acts) (responses : responsesOf acts = rs ++ [r])
      (out : acceptedIn acts = replies rs ++ part) (rest : part ++ backlog = Frame.encode r.render)
      (going : ∀ act ∈ acts, act.isLast = false) : Stage acts (.replying r.render) true backlog
  | closed (reason : Closing) (rs last : List Response) (part rest backlog : Bytes)
      (taken : takenIn acts = commandsOf acts) (responses : responsesOf acts = rs ++ last)
      (single : last.length ≤ 1) (out : acceptedIn acts = replies rs ++ part)
      (left : part ++ rest = replies last) : Stage acts (.closed reason) false backlog

section Snoc
variable (acts : List Act) (act : Act)

@[simp] theorem takenIn_snoc : takenIn (acts ++ [act]) = takenIn acts ++ act.taken?.toList := by
  cases h : act.taken? <;> simp [takenIn, h]

@[simp] theorem commandsOf_snoc :
    commandsOf (acts ++ [act]) = commandsOf acts ++ act.command?.toList := by
  cases h : act.command? <;> simp [commandsOf, h]

@[simp] theorem responsesOf_snoc :
    responsesOf (acts ++ [act]) = responsesOf acts ++ act.response?.toList := by
  cases h : act.response? <;> simp [responsesOf, h]

@[simp] theorem acceptedIn_snoc : acceptedIn (acts ++ [act]) = acceptedIn acts ++ act.bytes := by
  simp [acceptedIn]

variable {acts act}

theorem going_snoc (going : ∀ a ∈ acts, a.isLast = false) (h : act.isLast = false) :
    ∀ a ∈ acts ++ [act], a.isLast = false := by
  simpa [or_imp, forall_and, h] using going

end Snoc

attribute [simp] Act.taken? Act.command? Act.response? Act.bytes Act.isForward Act.isLast

theorem replies_append (rs rs' : List Response) : replies (rs ++ rs') = replies rs ++ replies rs' :=
  List.flatMap_append

theorem replies_singleton (r : Response) : replies [r] = Frame.encode r.render :=
  List.flatMap_singleton _ _

theorem length_le_delivered (rs last : List Response) (part : Bytes) :
    rs.length ≤ delivered (replies rs ++ part) (rs ++ last) := by
  induction rs with
  | nil => exact Nat.zero_le _
  | cons r rs ih =>
    have hbytes : replies (r :: rs) ++ part = Frame.encode r.render ++ (replies rs ++ part) := by
      simp [replies]
    rw [hbytes, List.cons_append, delivered, if_pos (by simp), List.drop_left', List.length_cons]
    · exact Nat.succ_le_succ ih
    · rfl

theorem length_commandsOf (acts : List Act) :
    (commandsOf acts).length = (responsesOf acts).length := by
  induction acts with
  | nil => rfl
  | cons act acts ih =>
    cases act with
    | executed c r => exact congrArg (· + 1) ih
    | _ => exact ih

section Stages
variable {acts : List Act} {phase : Phase} {sending : Bool} {backlog : Bytes}

/-- At each stage all replies but the last one are out, and of that a part. -/
theorem Stage.progress (h : Stage acts phase sending backlog) :
    ∃ rs last part rest, responsesOf acts = rs ++ last ∧ last.length ≤ 1 ∧
      acceptedIn acts = replies rs ++ part ∧ part ++ rest = replies last := by
  cases h with
  | reading _ out => exact ⟨responsesOf acts, [], [], [], by simp, by simp, by simpa using out, rfl⟩
  | executing _ _ out =>
    exact ⟨responsesOf acts, [], [], [], by simp, by simp, by simpa using out, rfl⟩
  | replying rs r _ responses out =>
    exact ⟨rs, [r], [], replies [r], responses, by simp, by simpa using out, rfl⟩
  | sending rs r part backlog _ responses out rest =>
    exact ⟨rs, [r], part, backlog, responses, by simp, out, by rw [rest, replies_singleton]⟩
  | closed _ rs last part rest _ _ responses single out left =>
    exact ⟨rs, last, part, rest, responses, single, out, left⟩

theorem Stage.lag (h : Stage acts phase sending backlog) :
    (commandsOf acts).length ≤ delivered (acceptedIn acts) (responsesOf acts) + 1 := by
  obtain ⟨rs, last, part, rest, hresponses, hsingle, hout, -⟩ := h.progress
  have := length_le_delivered rs last part
  rw [length_commandsOf, hresponses, hout, List.length_append]
  omega

theorem Stage.inOrder (h : Stage acts phase sending backlog) :
    acceptedIn acts <+: replies (responsesOf acts) := by
  obtain ⟨rs, last, part, rest, hresponses, -, hout, hleft⟩ := h.progress
  refine ⟨rest, ?_⟩
  rw [hout, hresponses, replies_append, ← hleft, List.append_assoc]

theorem Stage.oneByOne (h : Stage acts phase sending backlog) :
    takenIn acts = commandsOf acts ∨ ∃ c, takenIn acts = commandsOf acts ++ [c] := by
  cases h with
  | executing c taken => exact .inr ⟨c, taken⟩
  | reading taken => exact .inl taken
  | replying _ _ taken => exact .inl taken
  | sending _ _ _ _ taken => exact .inl taken
  | closed _ _ _ _ _ _ taken => exact .inl taken

end Stages

/-- Acts so far that were orderly stay so with one more, if it comes in its time. -/
theorem Orderly.snoc {acts : List Act} {act : Act} {phase : Phase} {sending : Bool}
    {backlog : Bytes} (h : Orderly acts) (going : ∀ a ∈ acts, a.isLast = false)
    (out : act.isForward = true → acceptedIn acts = replies (responsesOf acts))
    (hs : Stage (acts ++ [act]) phase sending backlog) : Orderly (acts ++ [act]) where
  lag := hs.lag
  inOrder := hs.inOrder
  oneByOne := hs.oneByOne
  waits := by
    intro before a later he hf
    rcases List.eq_nil_or_concat later with rfl | ⟨later, b, rfl⟩
    · obtain ⟨rfl, ha⟩ := List.append_inj' he rfl
      obtain rfl : act = a := by simpa using ha
      exact out hf
    · rw [List.concat_eq_append, ← List.cons_append, ← List.append_assoc] at he
      exact h.waits before a later (List.append_inj' he rfl).1 hf
  ends := by
    intro before a later he hl
    rcases List.eq_nil_or_concat later with rfl | ⟨later, b, rfl⟩
    · rfl
    · rw [List.concat_eq_append, ← List.cons_append, ← List.append_assoc] at he
      have ha : a ∈ acts := by
        rw [(List.append_inj' he rfl).1]
        simp
      rw [going a ha] at hl
      contradiction

theorem Stage.afterRead {acts : List Act} (taken : takenIn acts = commandsOf acts)
    (out : acceptedIn acts = replies (responsesOf acts))
    (going : ∀ act ∈ acts, act.isLast = false) (result : Reader.Result) :
    Stage (acts ++ [.read result]) (afterRead (some result)) false [] := by
  cases result with
  | error f =>
    exact .closed _ (responsesOf acts) [] [] [] [] (by simpa using taken) (by simp) (by simp)
      (by simpa using out) rfl
  | ok frame =>
    cases frame with
    | none =>
      exact .closed _ (responsesOf acts) [] [] [] [] (by simpa using taken) (by simp) (by simp)
        (by simpa using out) rfl
    | some text =>
      exact .executing ⟨text⟩ (by simpa using taken) (by simpa using out) (going_snoc going rfl)

end QueryServer.Handler
