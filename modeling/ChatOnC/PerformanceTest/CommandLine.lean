import Mathlib.Tactic.Common

/-!
# The command line of the performance tool

Model of `main` of `prartb_2.c` (lines 837–935), from the arguments to the test it calls.
`generateFile` and the tests themselves are left out.

* `clientTest_eq_some_iff`: the comparisons of `main` against the table of the tests.
* `main_status`: `main` returns 0 if and only if it has run a test.
* `accepts_iff`: for which arguments `main` looks only at arguments and runs the test
  that the usage text promises for them.
* `usage_rejected`: a command line of the usage text that runs no test.
-/

namespace ChatOnC.PerformanceTest

/-! ## `main` -/

/-- A call of one of the tests, with what it is given. -/
inductive Test
  | ipv4TcpClient (ip port filename : String) (quiet : Bool)
  | ipv4UdpClient (ip port : String) (quiet : Bool)
  | ipv6TcpClient (ip port : String) (quiet : Bool)
  | ipv6UdpClient (ip port : String) (quiet : Bool)
  | udsDgramClient (ip port : String) (quiet : Bool)
  | udsStreamClient (ip port : String) (quiet : Bool)
  | mmapClient (filename : String) (quiet : Bool)
  | pipeClient (pipeName : String) (quiet : Bool)
  | server (port : String) (quiet : Bool)
  deriving DecidableEq, Repr

/-- What `main` prints, the test it runs, and what it returns. -/
structure Outcome where
  printed : List String
  test : Option Test
  status : ℕ
  deriving DecidableEq, Repr

/-- `main` has looked at `argv[index]`, which is not an argument. -/
structure PastEnd where
  index : ℕ
  deriving DecidableEq, Repr

/-- `argv[i]`. -/
def arg (argv : List String) (i : ℕ) : Except PastEnd String :=
  match argv[i]? with
  | some s => .ok s
  | none => .error ⟨i⟩

/-- Lines 841–843. -/
def usage : List String :=
  ["Usage:\n", "  Client: stnc -c IP PORT -p <type> <param>\n", "  Server: stnc -s port -p -q\n"]

/-- Lines 852–854. -/
def performanceFlag (argv : List String) : Except PastEnd Bool :=
  if argv.length ≥ 5 then do
    let flag ← arg argv 3
    return flag = "-p"
  else return false

/-- The comparisons of lines 875–902. -/
def clientTest (ip port type param : String) (quiet : Bool) : Option Test :=
  if type = "ipv4" ∧ param = "tcp" then some (.ipv4TcpClient ip port "sample.txt" quiet)
  else if type = "ipv4" ∧ param = "udp" then some (.ipv4UdpClient ip port quiet)
  else if type = "ipv6" ∧ param = "tcp" then some (.ipv6TcpClient ip port quiet)
  else if type = "ipv6" ∧ param = "udp" then some (.ipv6UdpClient ip port quiet)
  else if type = "uds" ∧ param = "dgram" then some (.udsDgramClient ip port quiet)
  else if type = "uds" ∧ param = "stream" then some (.udsStreamClient ip port quiet)
  else if type = "mmap" then some (.mmapClient param quiet)
  else if type = "pipe" then some (.pipeClient param quiet)
  else none

/-- The client's part of `main` (lines 864–906). -/
def clientMain (argv : List String) (printed : List String) (isPerformanceTest isQuietMode : Bool) :
    Except PastEnd Outcome := do
  let printed := printed ++ ["-------------------\n"]
  let ip ← arg argv 2
  let port ← arg argv 3
  let type ← arg argv 5
  let param ← arg argv 6
  if isPerformanceTest then
    match clientTest ip port type param isQuietMode with
    | some test => return ⟨printed, some test, 0⟩
    | none => return ⟨printed ++ ["Invalid performance test parameters.\n"], none, 1⟩
  else return ⟨printed ++ ["No performance test specified.\n"], none, 1⟩

/-- The server's part of `main` (lines 907–928). -/
def serverMain (argv : List String) (printed : List String) (isPerformanceTest isQuietMode : Bool) :
    Except PastEnd Outcome := do
  let printed := printed ++ ["==============================\n"]
  if argv.length < 3 then return ⟨printed ++ ["Server mode requires a port argument.\n"], none, 1⟩
  else
    let port ← arg argv 2
    if isPerformanceTest then
      if isQuietMode then return ⟨printed, some (.server port isQuietMode), 0⟩
      else return ⟨printed ++ ["Invalid server options.\n"], none, 1⟩
    else return ⟨printed ++ ["No performance test specified.\n"], none, 1⟩

/-- `main` (lines 837–935), up to the first look behind the arguments. -/
def main (argv : List String) : Except PastEnd Outcome :=
  if argv.length < 4 then return ⟨usage, none, 1⟩
  else do
    let mode ← arg argv 1
    let isPerformanceTest ← performanceFlag argv
    let quietFlag ← arg argv 4
    let isQuietMode : Bool := quietFlag = "-q"
    let printed := if isQuietMode then ["yesssssssssss\n"] else []
    if mode = "-c" then clientMain argv printed isPerformanceTest isQuietMode
    else if mode = "-s" then serverMain argv printed isPerformanceTest isQuietMode
    else return ⟨printed ++ ["Invalid command.\n"], none, 1⟩

/-! ## The usage text -/

/-- The tests of a client. -/
inductive ClientTest
  | ipv4Tcp
  | ipv4Udp
  | ipv6Tcp
  | ipv6Udp
  | udsDgram
  | udsStream
  | mmap
  | pipe
  deriving DecidableEq, Repr

/-- Its `<type>`. -/
def ClientTest.type : ClientTest → String
  | .ipv4Tcp | .ipv4Udp => "ipv4"
  | .ipv6Tcp | .ipv6Udp => "ipv6"
  | .udsDgram | .udsStream => "uds"
  | .mmap => "mmap"
  | .pipe => "pipe"

/-- Its `<param>`; `none` if that may be any string. -/
def ClientTest.param : ClientTest → Option String
  | .ipv4Tcp | .ipv6Tcp => "tcp"
  | .ipv4Udp | .ipv6Udp => "udp"
  | .udsDgram => "dgram"
  | .udsStream => "stream"
  | .mmap | .pipe => none

/-- The call for it. -/
def ClientTest.call (ip port param : String) (quiet : Bool) : ClientTest → Test
  | .ipv4Tcp => .ipv4TcpClient ip port "sample.txt" quiet
  | .ipv4Udp => .ipv4UdpClient ip port quiet
  | .ipv6Tcp => .ipv6TcpClient ip port quiet
  | .ipv6Udp => .ipv6UdpClient ip port quiet
  | .udsDgram => .udsDgramClient ip port quiet
  | .udsStream => .udsStreamClient ip port quiet
  | .mmap => .mmapClient param quiet
  | .pipe => .pipeClient param quiet

/-- The test is the one with this type and this parameter. -/
def ClientTest.Named (type param : String) (t : ClientTest) : Prop :=
  t.type = type ∧ ∀ p, t.param = some p → p = param

/-- The usage text promises this test for these arguments. -/
inductive Promised : List String → Test → Prop
  | client (prog ip port : String) {type param : String} {t : ClientTest}
    (h : t.Named type param) :
    Promised [prog, "-c", ip, port, "-p", type, param] (t.call ip port param false)
  | server (prog port : String) : Promised [prog, "-s", port, "-p", "-q"] (.server port true)

/-- `main` looks only at arguments, and runs the test that is promised and no other. -/
def Accepts (argv : List String) : Prop :=
  ∃ outcome, main argv = .ok outcome ∧ ∀ test, outcome.test = some test ↔ Promised argv test

variable {ip port type param prog mode flag : String} {quiet : Bool} {test : Test}
  {rest : List String}

/-! ## The table -/

theorem named_of_param {t : ClientTest} (htype : type = t.type) (hparam : t.param = some param) :
    t.Named type param :=
  ⟨htype.symm, fun _ hp => Option.some.inj (hp.symm.trans hparam)⟩

theorem named_of_any {t : ClientTest} (htype : type = t.type) (hany : t.param = none) :
    t.Named type param :=
  ⟨htype.symm, fun _ hp => absurd (hany.symm.trans hp) (by simp)⟩

/-- The comparisons find a test if and only if it is in the table. -/
theorem clientTest_eq_some_iff : clientTest ip port type param quiet = some test ↔
    ∃ t : ClientTest, t.Named type param ∧ t.call ip port param quiet = test := by
  constructor
  · intro h
    unfold clientTest at h
    split_ifs at h with h1 h2 h3 h4 h5 h6 h7 h8
    · exact ⟨.ipv4Tcp, named_of_param h1.1 (h1.2 ▸ rfl), Option.some.inj h⟩
    · exact ⟨.ipv4Udp, named_of_param h2.1 (h2.2 ▸ rfl), Option.some.inj h⟩
    · exact ⟨.ipv6Tcp, named_of_param h3.1 (h3.2 ▸ rfl), Option.some.inj h⟩
    · exact ⟨.ipv6Udp, named_of_param h4.1 (h4.2 ▸ rfl), Option.some.inj h⟩
    · exact ⟨.udsDgram, named_of_param h5.1 (h5.2 ▸ rfl), Option.some.inj h⟩
    · exact ⟨.udsStream, named_of_param h6.1 (h6.2 ▸ rfl), Option.some.inj h⟩
    · exact ⟨.mmap, named_of_any h7 rfl, Option.some.inj h⟩
    · exact ⟨.pipe, named_of_any h8 rfl, Option.some.inj h⟩
  · rintro ⟨t, ⟨rfl, hparam⟩, rfl⟩
    cases t
    case mmap => simp [clientTest, ClientTest.type, ClientTest.call]
    case pipe => simp [clientTest, ClientTest.type, ClientTest.call]
    all_goals
      obtain rfl := hparam _ rfl
      simp [clientTest, ClientTest.type, ClientTest.call]

/-- Some test has this type and this parameter. -/
def Supported (type param : String) : Prop := ∃ t : ClientTest, t.Named type param

theorem clientTest_eq_none_iff :
    clientTest ip port type param quiet = none ↔ ¬Supported type param := by
  simp [Option.eq_none_iff_forall_ne_some, clientTest_eq_some_iff, Supported]

/-! ## What `main` does -/

/-- `main` looks only at arguments and runs this test, or none. -/
def Runs (argv : List String) (test : Option Test) : Prop :=
  ∃ outcome, main argv = .ok outcome ∧ outcome.test = test

theorem accepts_iff_of_runs {argv : List String} {ran : Option Test} (h : Runs argv ran) :
    Accepts argv ↔ ∀ test, ran = some test ↔ Promised argv test := by
  obtain ⟨outcome, hmain, rfl⟩ := h
  unfold Accepts
  simp [hmain]

/-- Behind a look at something that is not an argument nothing is accepted. -/
theorem not_accepts_of_error {argv : List String} {e : PastEnd} (h : main argv = .error e) :
    ¬Accepts argv := by
  unfold Accepts
  simp [h]

/-- With a fifth argument `main` comes to the two modes. -/
theorem main_eq (prog mode arg2 arg3 arg4 : String) (rest : List String) :
    let argv := prog :: mode :: arg2 :: arg3 :: arg4 :: rest
    ∃ printed, main argv =
      if mode = "-c" then clientMain argv printed (arg3 = "-p") (arg4 = "-q")
      else if mode = "-s" then serverMain argv printed (arg3 = "-p") (arg4 = "-q")
      else return ⟨printed ++ ["Invalid command.\n"], none, 1⟩ := by
  intro argv
  have hlen : ¬argv.length < 4 := by simp [argv]
  rw [main, if_neg hlen]
  exact ⟨_, rfl⟩

/-- The client looks at a sixth and a seventh argument. -/
theorem clientMain_eq (prog mode ip port flag type param : String) (rest printed : List String)
    (isPerformanceTest quiet : Bool) :
    ∃ outcome, clientMain (prog :: mode :: ip :: port :: flag :: type :: param :: rest) printed
        isPerformanceTest quiet = .ok outcome ∧
      outcome.test = if isPerformanceTest then clientTest ip port type param quiet else none := by
  have hreads : clientMain (prog :: mode :: ip :: port :: flag :: type :: param :: rest) printed
      isPerformanceTest quiet =
    if isPerformanceTest then
      match clientTest ip port type param quiet with
      | some test => .ok ⟨printed ++ ["-------------------\n"], some test, 0⟩
      | none => .ok ⟨printed ++ ["-------------------\n"] ++
          ["Invalid performance test parameters.\n"], none, 1⟩
    else
      .ok ⟨printed ++ ["-------------------\n"] ++ ["No performance test specified.\n"], none, 1⟩ :=
    rfl
  rw [hreads]
  cases isPerformanceTest with
  | false => exact ⟨_, rfl, rfl⟩
  | true =>
    cases clientTest ip port type param quiet with
    | none => exact ⟨_, rfl, rfl⟩
    | some test => exact ⟨_, rfl, rfl⟩

theorem serverMain_eq (prog mode port arg3 arg4 : String) (rest printed : List String)
    (isPerformanceTest quiet : Bool) :
    ∃ outcome, serverMain (prog :: mode :: port :: arg3 :: arg4 :: rest) printed
        isPerformanceTest quiet = .ok outcome ∧
      outcome.test = if isPerformanceTest && quiet then some (.server port true) else none := by
  have hlen : ¬(prog :: mode :: port :: arg3 :: arg4 :: rest).length < 3 := by simp
  unfold serverMain
  rw [if_neg hlen]
  cases isPerformanceTest <;> cases quiet <;> exact ⟨_, rfl, rfl⟩

theorem runs_client (prog ip port flag type param : String) (rest : List String) :
    Runs (prog :: "-c" :: ip :: port :: flag :: type :: param :: rest)
      (if port = "-p" then clientTest ip port type param (flag = "-q") else none) := by
  obtain ⟨printed, hmain⟩ := main_eq prog "-c" ip port flag (type :: param :: rest)
  obtain ⟨outcome, hclient, htest⟩ := clientMain_eq prog "-c" ip port flag type param rest printed
    (port = "-p") (flag = "-q")
  rw [if_pos rfl] at hmain
  exact ⟨outcome, hmain.trans hclient, by simpa using htest⟩

theorem runs_server (prog port arg3 arg4 : String) (rest : List String) :
    Runs (prog :: "-s" :: port :: arg3 :: arg4 :: rest)
      (if arg3 = "-p" ∧ arg4 = "-q" then some (.server port true) else none) := by
  obtain ⟨printed, hmain⟩ := main_eq prog "-s" port arg3 arg4 rest
  obtain ⟨outcome, hserver, htest⟩ := serverMain_eq prog "-s" port arg3 arg4 rest printed
    (arg3 = "-p") (arg4 = "-q")
  rw [if_neg (by decide), if_pos rfl] at hmain
  exact ⟨outcome, hmain.trans hserver, by simpa using htest⟩

theorem runs_other (prog arg2 arg3 arg4 : String) (rest : List String) (hclient : mode ≠ "-c")
    (hserver : mode ≠ "-s") : Runs (prog :: mode :: arg2 :: arg3 :: arg4 :: rest) none := by
  obtain ⟨printed, hmain⟩ := main_eq prog mode arg2 arg3 arg4 rest
  rw [if_neg hclient, if_neg hserver] at hmain
  exact ⟨_, hmain, rfl⟩

/-! ## What `main` returns -/

theorem bind_eq_ok {α β : Type} {x : Except PastEnd α} {f : α → Except PastEnd β} {b : β}
    (h : x >>= f = .ok b) : ∃ a, x = .ok a ∧ f a = .ok b := by
  cases x with
  | error e => cases h
  | ok a => exact ⟨a, rfl, h⟩

theorem clientMain_status {argv printed : List String} {isPerformanceTest : Bool}
    {outcome : Outcome} (h : clientMain argv printed isPerformanceTest quiet = .ok outcome) :
    outcome.status = 0 ↔ outcome.test ≠ none := by
  obtain ⟨ip, -, h⟩ := bind_eq_ok h
  obtain ⟨port, -, h⟩ := bind_eq_ok h
  obtain ⟨type, -, h⟩ := bind_eq_ok h
  obtain ⟨param, -, h⟩ := bind_eq_ok h
  split at h
  · split at h
    · simp [← Except.ok.inj h]
    · simp [← Except.ok.inj h]
  · simp [← Except.ok.inj h]

theorem serverMain_status {argv printed : List String} {isPerformanceTest : Bool}
    {outcome : Outcome} (h : serverMain argv printed isPerformanceTest quiet = .ok outcome) :
    outcome.status = 0 ↔ outcome.test ≠ none := by
  unfold serverMain at h
  by_cases hshort : argv.length < 3
  · rw [if_pos hshort] at h
    simp [← Except.ok.inj h]
  · rw [if_neg hshort] at h
    obtain ⟨port, -, h⟩ := bind_eq_ok h
    split_ifs at h
    · simp [← Except.ok.inj h]
    · simp [← Except.ok.inj h]
    · simp [← Except.ok.inj h]

/-- `main` returns 0 if and only if it has run a test. -/
theorem main_status {argv : List String} {outcome : Outcome} (h : main argv = .ok outcome) :
    outcome.status = 0 ↔ outcome.test ≠ none := by
  unfold main at h
  by_cases hshort : argv.length < 4
  · rw [if_pos hshort] at h
    simp [← Except.ok.inj h]
  · rw [if_neg hshort] at h
    obtain ⟨mode, -, h⟩ := bind_eq_ok h
    obtain ⟨isPerformanceTest, -, h⟩ := bind_eq_ok h
    obtain ⟨quietFlag, -, h⟩ := bind_eq_ok h
    dsimp only at h
    by_cases hclient : mode = "-c"
    · rw [if_pos hclient] at h
      exact clientMain_status h
    · by_cases hserver : mode = "-s"
      · rw [if_neg hclient, if_pos hserver] at h
        exact serverMain_status h
      · rw [if_neg hclient, if_neg hserver] at h
        simp [← Except.ok.inj h]

/-! ## What is promised -/

theorem promised_cases {argv : List String} (h : Promised argv test) :
    (∃ prog ip port type param, argv = [prog, "-c", ip, port, "-p", type, param] ∧
      ∃ t : ClientTest, t.Named type param ∧ t.call ip port param false = test) ∨
    ∃ prog port, argv = [prog, "-s", port, "-p", "-q"] ∧ .server port true = test := by
  cases h with
  | client prog ip port h => exact .inl ⟨prog, ip, port, _, _, rfl, _, h, rfl⟩
  | server prog port => exact .inr ⟨prog, port, rfl, rfl⟩

theorem promised_client_iff :
    Promised (prog :: "-c" :: ip :: port :: flag :: type :: param :: rest) test ↔
      (rest = [] ∧ flag = "-p") ∧
        ∃ t : ClientTest, t.Named type param ∧ t.call ip port param false = test := by
  constructor
  · intro h
    rcases promised_cases h with ⟨_, _, _, _, _, hargv, hnamed⟩ | ⟨_, _, hargv, -⟩
    · simp only [List.cons.injEq, true_and] at hargv
      obtain ⟨-, rfl, rfl, hflag, rfl, rfl, hrest⟩ := hargv
      exact ⟨⟨hrest, hflag⟩, hnamed⟩
    · simp at hargv
  · rintro ⟨⟨rfl, rfl⟩, t, h, rfl⟩
    exact .client prog ip port h

theorem promised_server_iff {arg3 arg4 : String} :
    Promised (prog :: "-s" :: port :: arg3 :: arg4 :: rest) test ↔
      (rest = [] ∧ arg3 = "-p" ∧ arg4 = "-q") ∧ .server port true = test := by
  constructor
  · intro h
    rcases promised_cases h with ⟨_, _, _, _, _, hargv, -⟩ | ⟨_, _, hargv, htest⟩
    · simp at hargv
    · simp only [List.cons.injEq, true_and] at hargv
      obtain ⟨-, rfl, harg3, harg4, hrest⟩ := hargv
      exact ⟨⟨hrest, harg3, harg4⟩, htest⟩
  · rintro ⟨⟨rfl, rfl, rfl⟩, rfl⟩
    exact .server prog port

theorem not_promised_other (hclient : mode ≠ "-c") (hserver : mode ≠ "-s") :
    ¬Promised (prog :: mode :: rest) test := by
  intro h
  rcases promised_cases h with ⟨_, _, _, _, _, hargv, -⟩ | ⟨_, _, hargv, -⟩
  · simp only [List.cons.injEq] at hargv
    exact hclient hargv.2.1
  · simp only [List.cons.injEq] at hargv
    exact hserver hargv.2.1

/-! ## What is accepted -/

/-- Where `main` keeps to the usage text. -/
structure Conforms (argv : List String) : Prop where
  /-- `main` looks for `-q` in `argv[4]`, whatever else there is. -/
  length : 5 ≤ argv.length
  /-- The client looks for `-p` where its port is. -/
  client : argv[1]? = some "-c" → 7 ≤ argv.length ∧
    ∀ type param, argv[5]? = some type → argv[6]? = some param → Supported type param →
      (argv[3]? = some "-p" ↔ argv.length = 7 ∧ argv[4]? = some "-p")
  /-- The server does not look at further arguments. -/
  server : argv[1]? = some "-s" → argv[3]? = some "-p" → argv[4]? = some "-q" → argv.length = 5

theorem accepts_client_iff (prog ip port flag type param : String) (rest : List String) :
    Accepts (prog :: "-c" :: ip :: port :: flag :: type :: param :: rest) ↔
      (Supported type param → (port = "-p" ↔ rest = [] ∧ flag = "-p")) := by
  rw [accepts_iff_of_runs (runs_client prog ip port flag type param rest)]
  simp only [promised_client_iff]
  constructor
  · rintro h ⟨t, ht⟩
    constructor
    · intro hport
      have htest : clientTest ip port type param (flag = "-q") =
          some (t.call ip port param (flag = "-q")) := clientTest_eq_some_iff.mpr ⟨t, ht, rfl⟩
      exact ((h _).mp ((if_pos hport).trans htest)).1
    · intro hpromised
      have hruns := (h (t.call ip port param false)).mpr ⟨hpromised, t, ht, rfl⟩
      by_contra hport
      simp [hport] at hruns
  · intro h test
    by_cases hsupported : Supported type param
    · rw [← h hsupported]
      by_cases hport : port = "-p"
      · -- here `argv[4]` is `-p` as well, so it is not `-q`
        have hquiet : flag ≠ "-q" := by
          rw [((h hsupported).mp hport).2]
          decide
        rw [if_pos hport, decide_eq_false hquiet, clientTest_eq_some_iff]
        simp [hport]
      · simp [hport]
    · have hnone : clientTest ip port type param (flag = "-q") = none :=
        clientTest_eq_none_iff.mpr hsupported
      have hnot : ¬∃ t : ClientTest, t.Named type param ∧ t.call ip port param false = test :=
        fun ⟨t, ht, _⟩ => hsupported ⟨t, ht⟩
      simp [hnone, hnot]

theorem accepts_server_iff (prog port arg3 arg4 : String) (rest : List String) :
    Accepts (prog :: "-s" :: port :: arg3 :: arg4 :: rest) ↔
      (arg3 = "-p" → arg4 = "-q" → rest = []) := by
  rw [accepts_iff_of_runs (runs_server prog port arg3 arg4 rest)]
  simp only [promised_server_iff]
  constructor
  · intro h harg3 harg4
    exact ((h _).mp (if_pos ⟨harg3, harg4⟩)).1.1
  · intro h test
    by_cases hflags : arg3 = "-p" ∧ arg4 = "-q"
    · simp [hflags, h hflags.1 hflags.2]
    · simp [hflags]

theorem accepts_other (prog arg2 arg3 arg4 : String) (rest : List String) (hclient : mode ≠ "-c")
    (hserver : mode ≠ "-s") : Accepts (prog :: mode :: arg2 :: arg3 :: arg4 :: rest) := by
  rw [accepts_iff_of_runs (runs_other prog arg2 arg3 arg4 rest hclient hserver)]
  simp [not_promised_other hclient hserver]

/-- A client without a seventh argument. -/
theorem not_accepts_client (prog ip port flag : String) (rest : List String)
    (h : rest.length < 2) : ¬Accepts (prog :: "-c" :: ip :: port :: flag :: rest) := by
  obtain ⟨printed, hmain⟩ := main_eq prog "-c" ip port flag rest
  rw [if_pos rfl] at hmain
  match rest, h with
  | [], _ => exact not_accepts_of_error hmain
  | [type], _ => exact not_accepts_of_error hmain

theorem conforms_client_iff (prog ip port flag type param : String) (rest : List String) :
    Conforms (prog :: "-c" :: ip :: port :: flag :: type :: param :: rest) ↔
      (Supported type param → (port = "-p" ↔ rest = [] ∧ flag = "-p")) := by
  constructor
  · intro h hsupported
    simpa using (h.client rfl).2 type param rfl rfl hsupported
  · intro h
    exact ⟨by simp, by simpa using h, by simp⟩

theorem conforms_server_iff (prog port arg3 arg4 : String) (rest : List String) :
    Conforms (prog :: "-s" :: port :: arg3 :: arg4 :: rest) ↔
      (arg3 = "-p" → arg4 = "-q" → rest = []) := by
  constructor
  · intro h
    simpa using h.server rfl
  · intro h
    exact ⟨by simp, by simp, by simpa using h⟩

/-- **The command line.** With four arguments or more, `main` looks only at arguments and
    runs what the usage text promises and nothing else, if and only if there are at least
    five, at least seven for a client, a client of a supported test has `-p` for its port
    exactly when its arguments are those of the usage text, and nothing stands behind the
    server's `-q`. -/
theorem accepts_iff (argv : List String) (h : 4 ≤ argv.length) :
    Accepts argv ↔ Conforms argv := by
  match argv, h with
  | [prog, mode, arg2, arg3], _ =>
    have hmain : main [prog, mode, arg2, arg3] = .error ⟨4⟩ := rfl
    exact iff_of_false (not_accepts_of_error hmain) fun h => absurd h.length (by simp)
  | prog :: mode :: arg2 :: arg3 :: arg4 :: rest, _ =>
    by_cases hclient : mode = "-c"
    · rw [hclient]
      rcases Nat.lt_or_ge rest.length 2 with hshort | hlong
      · refine iff_of_false (not_accepts_client prog arg2 arg3 arg4 rest hshort) fun h => ?_
        have hseven := (h.client rfl).1
        simp only [List.length_cons] at hseven
        omega
      · match rest, hlong with
        | type :: param :: rest, _ => rw [accepts_client_iff, conforms_client_iff]
    · by_cases hserver : mode = "-s"
      · rw [hserver, accepts_server_iff, conforms_server_iff]
      · exact iff_of_true (accepts_other prog arg2 arg3 arg4 rest hclient hserver)
          ⟨by simp, by simp [hclient], by simp [hserver]⟩

/-- The server as in the usage text. -/
theorem accepts_iff_server : Accepts ["stnc", "-s", "9000", "-p", "-q"] ↔
    Conforms ["stnc", "-s", "9000", "-p", "-q"] :=
  accepts_iff _ (by decide)

/-- A client as in the usage text: nothing is run. -/
theorem usage_rejected : ¬∀ argv : List String, 4 ≤ argv.length → Accepts argv := by
  intro hall
  have haccepts := hall ["stnc", "-c", "127.0.0.1", "9000", "-p", "ipv4", "tcp"] (by decide)
  rw [accepts_client_iff] at haccepts
  have hsupported : Supported "ipv4" "tcp" := ⟨.ipv4Tcp, rfl, by simp [ClientTest.param]⟩
  exact absurd ((haccepts hsupported).mpr ⟨rfl, rfl⟩) (by decide)

end ChatOnC.PerformanceTest
