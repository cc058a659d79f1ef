import QueryServer.Proofs.Connection.Conservation
import QueryServer.Proofs.Connection.RoundTrip
import QueryServer.Proofs.Server.Acts
import QueryServer.Proofs.Server.Turns
/-!
The account of one client: what has arrived from it is what its handler has executed, what it has
taken and not executed yet, and what it is still going to read; and what it was sent and is being
sent are the replies to what was executed. A handler keeps this with every step.
-/

namespace QueryServer.Handler

/-- The commands in reports, up to the first report that is none. -/
def leading : List Reader.Result → List Command
  | .ok (some text) :: rest => ⟨text⟩ :: leading rest
  | _ => []

/-- The complete frames of what arrives, up to the end, an error or an oversized frame. -/
def received (limit : Nat) (arrived : List Arrival) : List Command :=
  leading (Residue.emission limit {} arrived)

def report (c : Command) : Reader.Result :=
  .ok (some c.text)

/-- What has been read and not executed. -/
def Phase.ahead : Phase → List Reader.Result
  | .executing c => [report c]
  | .closed .ended => [.ok none]
  | .closed (.read f) => [.error f]
  | _ => []

/-- The bytes of a reply that the writer has not been given. -/
def Phase.unsent : Phase → Bytes
  | .replying text => Frame.encode text
  | _ => []

/-- The handler has given up after a failed write. -/
def Severed (h : Handler) : Prop :=
  ∃ f, h.phase = .closed (.write f)

theorem not_severed {h : Handler} (hp : ∀ f, h.phase ≠ .closed (.write f)) : ¬ h.Severed := by
  rintro ⟨f, hf⟩
  exact hp f hf

/-- What is true of a handler from which these commands have been executed with these responses,
when all this has arrived for it. -/
structure Account (limit : Nat) (arrived : List Arrival) (commands : List Command)
    (responses : List Response) (h : Handler) : Prop where
  reader : h.connection.reader.Sound limit
  /-- Whatever arrives later, all of it is reported: first what was executed, then the rest. -/
  reports : ∀ more, Residue.emission limit {} (arrived ++ more) = commands.map report ++
    (h.phase.ahead ++ h.connection.reader.due limit (h.connection.arrivals ++ more))
  handed : h.connection.writer.handed ++ h.phase.unsent = replies responses
  backlog : ¬ h.Severed → h.connection.writer.backlog = []

theorem leading_append (commands : List Command) (rest : List Reader.Result) :
    leading (commands.map report ++ rest) = commands ++ leading rest := by
  induction commands with
  | nil => rfl
  | cons c commands ih => exact congrArg (c :: ·) ih

/-- A write leaves the reading side alone. -/
theorem reading_side {c c' : Connection} {text : String} {result : Except WriteFault Unit}
    (hwrite : c.writeFrame text = (result, c')) :
    c'.reader = c.reader ∧ c'.arrivals = c.arrivals := by
  obtain rfl : (c.writeFrame text).2 = c' := congrArg Prod.snd hwrite
  exact ⟨rfl, rfl⟩

/-- Where nothing is oversized, all terminated frames are received. -/
theorem received_of_carry {limit : Nat} {arrivals : List Arrival} {bytes : Bytes}
    (hc : Arrival.Carry arrivals bytes)
    (hfit : ∀ start, start <+: bytes → (Frame.tail start).length ≤ limit) (ended : Bool) :
    received limit (arrivals ++ if ended then [.ending] else []) = commandsIn bytes := by
  have hpieces : (Frame.pieces bytes).map Residue.frame = (commandsIn bytes).map report := by
    simp only [commandsIn, List.map_map]
    rfl
  have hleft := hfit bytes (List.prefix_refl bytes)
  rw [received, Residue.emission_of_carry hc List.not_mem_nil (by simpa using hfit),
    List.nil_append, hpieces, leading_append]
  cases ended with
  | false => exact List.append_nil _
  | true =>
    have hend : Residue.emission limit ⟨Frame.tail bytes, false⟩ [.ending] = [.ok none] := by
      simp [Residue.emission, Residue.emit, Nat.not_lt.mpr hleft]
    rw [if_pos rfl, hend]
    exact List.append_nil _

namespace Account

variable {σ : Type} {run : Execution σ} {s s' : σ} {limit : Nat} {arrived : List Arrival}
  {commands : List Command} {responses : List Response} {h h' : Handler}

theorem fresh (limit : Nat) (acceptances : List Acceptance) :
    Account limit [] [] [] (ofArrivals limit [] acceptances) where
  reader := Reader.sound_ofLimit limit
  reports more := (due_ofArrivals limit more acceptances).symm
  handed := rfl
  backlog _ := rfl

theorem arrive (ha : Account limit arrived commands responses h) (a : Arrival) :
    Account limit (arrived ++ [a]) commands responses
      { h with connection :=
        { h.connection with arrivals := h.connection.arrivals ++ [a] } } where
  reader := ha.reader
  reports more := by simpa using ha.reports (a :: more)
  handed := ha.handed
  backlog := ha.backlog

theorem read (ha : Account limit arrived commands responses h) (hp : h.phase = .reading)
    {result : Option Reader.Result} {c : Connection}
    (hpoll : h.connection.pollFrame = (result, c)) :
    Account limit arrived commands responses ⟨c, afterRead result⟩ := by
  have hopen : ¬ h.Severed := not_severed (by simp [hp])
  have hreports := ha.reports
  have hhanded := ha.handed
  rw [hp] at hreports hhanded
  rcases ha.reader.poll h.connection.arrivals with
    ⟨found, r', rest, hfound, hsound, hdue⟩ | ⟨r', hnone, hsound, hq, hdue⟩
  · obtain ⟨rfl, rfl⟩ : some found = result ∧
        { h.connection with reader := r', arrivals := rest } = c := by
      simpa [Connection.pollFrame, hfound] using hpoll
    have hahead : (afterRead (some found)).ahead = [found] := by
      rcases found with f | (_ | text) <;> rfl
    have hunsent : (afterRead (some found)).unsent = [] := by
      rcases found with f | (_ | text) <;> rfl
    refine ⟨hsound, fun more => ?_, ?_, fun _ => ha.backlog hopen⟩
    · rw [hreports, hdue, hahead]
      rfl
    · rw [hunsent]
      exact hhanded
  · obtain ⟨rfl, rfl⟩ : none = result ∧
        { h.connection with reader := r', arrivals := [] } = c := by
      simpa [Connection.pollFrame, hnone] using hpoll
    exact ⟨hsound, fun more => by rw [hreports, hdue]; rfl, hhanded, fun _ => ha.backlog hopen⟩

theorem executed (ha : Account limit arrived commands responses h) {c : Command}
    (hp : h.phase = .executing c) (r : Response) :
    Account limit arrived (commands ++ [c]) (responses ++ [r])
      ⟨h.connection, .replying r.render⟩ where
  reader := ha.reader
  reports more := by
    rw [ha.reports, hp, List.map_append, List.append_assoc]
    rfl
  handed := by
    have hhanded := ha.handed
    rw [hp] at hhanded
    rw [replies_append, replies_singleton, ← hhanded]
    simp [Phase.unsent]
  backlog _ := ha.backlog (not_severed (by simp [hp]))

/-- The write of a reply hands it over, whether or not it can be sent to its last byte. -/
theorem wrote (ha : Account limit arrived commands responses h) {text : String}
    (hp : h.phase = .replying text) {result : Except WriteFault Unit} {c : Connection}
    (hwrite : h.connection.writeFrame text = (result, c)) {phase : Phase}
    (hquiet : phase.ahead = [] ∧ phase.unsent = [])
    (hok : ¬ Severed ⟨c, phase⟩ → result = .ok ()) :
    Account limit arrived commands responses ⟨c, phase⟩ := by
  have hempty := ha.backlog (not_severed (by simp [hp]))
  have hreports := ha.reports
  have hhanded := ha.handed
  rw [hp] at hreports hhanded
  have htaken : h.connection.takesOver text = true := by
    simpa [hempty, Writer.flushBoundary] using
      mt (h.connection.takesOver_eq_false_iff text).mp
  have hgrown := h.connection.handed_writeFrame text
  rw [htaken, if_pos rfl] at hgrown
  have hside := reading_side hwrite
  rw [hwrite] at hgrown
  refine ⟨hside.1 ▸ ha.reader, fun more => ?_, ?_, fun hs => ?_⟩
  · rw [hreports, hquiet.1, hside.1, hside.2]
    rfl
  · rw [hquiet.2, List.append_nil]
    exact hgrown.trans hhanded
  · have hdone := (h.connection.writeFrame_ok_iff text).mp (by rw [hwrite]; exact hok hs)
    rwa [hwrite] at hdone

/-- With each step the account goes on; a command is added to it when it is executed. -/
theorem step (ha : Account limit arrived commands responses h)
    (hs : h.step? run s = some (s', h')) :
    (∃ c, h.phase = .executing c ∧
      Account limit arrived (commands ++ [c]) (responses ++ [(run s c).2]) h') ∨
    ((∀ c, h.phase ≠ .executing c) ∧ Account limit arrived commands responses h') := by
  cases stepped_of_step? hs with
  | executed c hp => exact .inl ⟨c, hp, ha.executed hp _⟩
  | read result c hp hpoll => exact .inr ⟨by simp [hp], ha.read hp hpoll⟩
  | sent text c hp hwrite =>
    exact .inr ⟨by simp [hp], ha.wrote hp hwrite ⟨rfl, rfl⟩ fun _ => rfl⟩
  | severed text c f hp hwrite =>
    refine .inr ⟨by simp [hp], ha.wrote hp hwrite ⟨rfl, rfl⟩ fun hs => ?_⟩
    exact absurd ⟨f, rfl⟩ hs

/-- Commands are executed in the order in which they came, and none twice. -/
theorem commands_prefix (ha : Account limit arrived commands responses h) :
    commands <+: received limit arrived := by
  have hreports := ha.reports []
  rw [List.append_nil] at hreports
  rw [received, hreports, leading_append]
  exact List.prefix_append _ _

/-- Only replies are sent, in the order of the commands. -/
theorem sent_prefix (ha : Account limit arrived commands responses h) :
    h.connection.writer.sent <+: replies responses := by
  rw [← ha.handed, Writer.handed, List.append_assoc]
  exact List.prefix_append _ _

/-- A handler that can do nothing more has executed and answered all that came, unless a write has
failed. -/
theorem complete (ha : Account limit arrived commands responses h)
    (hrest : h.step? run s = none) (hopen : ¬ h.Severed) :
    commands = received limit arrived ∧ h.connection.writer.sent = replies responses := by
  have hreports := ha.reports []
  have hhanded := ha.handed
  rw [List.append_nil] at hreports
  rw [Writer.handed, ha.backlog hopen, List.append_nil] at hhanded
  cases hp : h.phase with
  | executing c => simp [step?, hp] at hrest
  | replying text =>
    rcases hwrite : h.connection.writeFrame text with ⟨result, c⟩
    cases result <;> simp [step?, hp, hwrite] at hrest
  | closed reason =>
    rw [hp] at hreports hhanded
    refine ⟨?_, by simpa [Phase.unsent] using hhanded⟩
    rw [received, hreports, leading_append]
    cases reason with
    | ended => exact (List.append_nil _).symm
    | read f => exact (List.append_nil _).symm
    | write f => exact absurd ⟨f, hp⟩ hopen
  | reading =>
    rw [hp] at hreports hhanded
    refine ⟨?_, by simpa [Phase.unsent] using hhanded⟩
    rcases ha.reader.poll h.connection.arrivals with
      ⟨found, r', rest, hfound, -, -⟩ | ⟨r', -, -, hq, hdue⟩
    · simp [step?, hp, Connection.pollFrame, hfound] at hrest
    · have hnothing : h.connection.reader.due limit (h.connection.arrivals ++ []) = [] := by
        rw [hdue, Reader.due, hq.owed, Residue.emission, List.append_nil]
      rw [received, hreports, hnothing, leading_append]
      exact (List.append_nil _).symm

end Account

/-- How far a command is from being answered. -/
def Phase.weight : Phase → Nat
  | .executing _ => 2
  | .replying _ => 1
  | _ => 0

/-- More than the number of steps that a handler can take. -/
def work (limit : Nat) (h : Handler) : Nat :=
  4 * (h.due limit).length + h.phase.weight + if h.connection.arrivals = [] then 0 else 1

theorem weight_afterRead (result : Option Reader.Result) : (afterRead result).weight ≤ 2 := by
  rcases result with _ | f | (_ | text)
  all_goals simp [afterRead, Phase.weight]

/-- Every step of a handler is one of finitely many. -/
theorem work_decreases {σ : Type} {run : Execution σ} {s s' : σ} {limit : Nat} {h h' : Handler}
    (hsound : h.connection.reader.Sound limit) (hs : h.step? run s = some (s', h')) :
    h'.work limit < h.work limit := by
  cases stepped_of_step? hs with
  | executed c hp => simp [work, due, hp, Phase.weight]
  | sent text c hp hwrite | severed text c f hp hwrite =>
    obtain ⟨hreader, harrivals⟩ := reading_side hwrite
    simp [work, due, hp, Phase.weight, hreader, harrivals]
  | read result c hp hpoll hwait =>
    rcases hsound.poll h.connection.arrivals with
      ⟨found, r', rest, hfound, -, hdue⟩ | ⟨r', hnone, -, -, hdue⟩
    · obtain ⟨rfl, rfl⟩ : some found = result ∧
          { h.connection with reader := r', arrivals := rest } = c := by
        simpa [Connection.pollFrame, hfound] using hpoll
      have hlength := congrArg List.length (hdue [])
      rw [List.append_nil, List.append_nil, List.length_cons] at hlength
      have hweight := weight_afterRead (some found)
      simp only [work, due, hlength]
      split <;> omega
    · obtain ⟨rfl, rfl⟩ : none = result ∧
          { h.connection with reader := r', arrivals := [] } = c := by
        simpa [Connection.pollFrame, hnone] using hpoll
      have hlength := congrArg List.length (hdue [])
      rw [List.append_nil] at hlength
      simp [work, due, hlength, hwait rfl, hp, afterRead, Phase.weight]

end QueryServer.Handler
