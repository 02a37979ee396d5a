import AirLink.Settings

/-! # The command line of the receiver

Options are taken one after another.  A preset replaces all settings but the channel; every other
option changes one of them.  An option that needs a value and stands last is passed over, and so is
a word that is no option, though not in silence.
-/

namespace AirLink

/-- What a run of the receiver is told on its command line. -/
structure Options where
  keyFile : String := "gs.key"
  verbose : Bool := false
  /-- The file for the payloads, in place of the standard output. -/
  output : Option String := none
  settings : Settings := {}
  deriving DecidableEq

inductive Choice where
  | lowSpec
  | strict
  | keyFile (path : String)
  | output (path : String)
  | channel (id : UInt32)
  | service (number : UInt16)
  | group (address : Ipv6)
  | interface (index : UInt32)
  | windowSize (blocks : Nat)
  | rollbackAfter (seconds : Nat)
  | reportInterval (milliseconds : Nat)
  | noRecovery
  | verbose
  deriving DecidableEq

/-- What the value of an option should have been. -/
inductive Expectation where
  | hexadecimal
  | number
  | service
  | address
  | seconds
  deriving DecidableEq, Repr

def Expectation.message : Expectation → String
  | hexadecimal => "유효한 16진수 필요"
  | number => "유효한 숫자 필요"
  | service => "유효한 포트 필요"
  | address => "유효한 IPv6 주소 필요"
  | seconds => "유효한 초 필요"

namespace Choice

def change (o : Options) (f : Settings → Settings) : Options := { o with settings := f o.settings }

def apply (o : Options) : Choice → Options
  | lowSpec => change o fun s => { Settings.lowSpec with channel := s.channel }
  | strict => change o fun s => { Settings.strict with channel := s.channel }
  | keyFile path => { o with keyFile := path }
  | output path => { o with output := some path }
  | channel id => change o fun s => { s with channel := some id }
  | service number => change o fun s => { s with endpoint.service := number }
  | group address => change o fun s => { s with endpoint.group := address }
  | interface index => change o fun s => { s with endpoint.interface := index }
  | windowSize blocks => change o fun s => { s with windowSize := blocks }
  | rollbackAfter seconds => change o fun s =>
      { s with rollbackAfter := if seconds = 0 then none else some seconds }
  | reportInterval milliseconds => change o fun s => { s with reportInterval := milliseconds }
  | noRecovery => change o fun s => { s with recovery := false }
  | verbose => { o with verbose := true }

def readNumber (bound : Nat) (missed : Expectation) (value : String) : Except Expectation Nat :=
  match Numeral.parse? 10 bound value.toList with
  | some n => .ok n
  | none => .error missed

/-- Reads a 32-bit number, hexadecimal behind `0x` and decimal otherwise. -/
def readWord (value : String) : Except Expectation UInt32 :=
  match value.toList with
  | '0' :: 'x' :: digits =>
    match Numeral.parse? 16 UInt32.size digits with
    | some n => .ok (UInt32.ofNat n)
    | none => .error .hexadecimal
  | _ => (readNumber UInt32.size .number value).map UInt32.ofNat

def readAddress (value : String) : Except Expectation Ipv6 :=
  match Ipv6.parse? value with
  | some address => .ok address
  | none => .error .address

end Choice

/-- What a word of the command line stands for. -/
inductive OptionWord where
  | alone (choice : Choice)
  | valued (read : String → Except Expectation Choice)
  | help
  | unknown

def OptionWord.ofString (word : String) : OptionWord :=
  match word with
  | "--low-spec" => .alone .lowSpec
  | "--strict" => .alone .strict
  | "--no-fec" => .alone .noRecovery
  | "--verbose" | "-v" => .alone .verbose
  | "--key" | "-k" => .valued fun value => .ok (.keyFile value)
  | "--output" | "-o" => .valued fun value => .ok (.output value)
  | "--channel" | "-c" => .valued fun value => (Choice.readWord value).map .channel
  | "--port" | "-p" => .valued fun value =>
      (Choice.readNumber UInt16.size .service value).map fun n => .service (UInt16.ofNat n)
  | "--group" => .valued fun value => (Choice.readAddress value).map .group
  | "--ifindex" => .valued fun value => (Choice.readWord value).map .interface
  | "--ring-size" => .valued fun value =>
      (Choice.readNumber UInt64.size .number value).map .windowSize
  | "--rollback" => .valued fun value =>
      (Choice.readNumber UInt64.size .seconds value).map .rollbackAfter
  | "--stats" => .valued fun value =>
      (Choice.readNumber UInt64.size .number value).map .reportInterval
  | "--help" | "-h" => .help
  | _ => .unknown

/-- What a command line comes to. -/
inductive Invocation where
  | run (options : Options)
  | help
  | invalid (missed : Expectation)
  deriving DecidableEq

namespace Options

/-- Takes the words in turn.  The words that are no options are collected. -/
def parseFrom (o : Options) (ignored : List String) : List String → Invocation × List String
  | [] => (.run o, ignored)
  | word :: rest =>
    match OptionWord.ofString word with
    | .alone choice => parseFrom (choice.apply o) ignored rest
    | .help => (.help, ignored)
    | .unknown => parseFrom o (ignored ++ [word]) rest
    | .valued read =>
      match rest with
      | [] => (.run o, ignored)
      | value :: rest =>
        match read value with
        | .error missed => (.invalid missed, ignored)
        | .ok choice => parseFrom (choice.apply o) ignored rest

/-- Reads the words of a command line.  Also gives the words that are no options, as far as they
were reached. -/
def parse (words : List String) : Invocation × List String := parseFrom {} [] words

/-- The line that reports a word that is no option. -/
def ignoredLine (word : String) : String := "알 수 없는 옵션 무시: " ++ word

def helpText : String :=
  "WFB RX - 미러 멀티캐스트 수신기

유선 미러 스트림을 받아 인증/FEC 복구 후 페이로드를 출력
- X25519 봉인 박스 세션 + ChaCha20-Poly1305 조각 인증
- Reed-Solomon (k, n) 복구

사용법:
  cargo run --release --bin wfb-rx -- [OPTIONS]

옵션:
  -k, --key <PATH>        키 파일 (기본: gs.key)
  -o, --output <PATH>     출력 파일 (기본: 표준 출력)
  -c, --channel <ID>      채널 ID 고정 (10진수 또는 0x 16진수)
  -p, --port <PORT>       미러 포트 (기본: 5742)
  --group <ADDR>          미러 그룹 (기본: ff02::5742)
  --ifindex <N>           멀티캐스트 인터페이스 인덱스 (기본: 0)
  --ring-size <N>         윈도우 깊이 블록 수 (기본: 40)
  --rollback <SECS>       에포크 롤백 허용 대기 (0이면 금지, 기본: 10)
  --stats <MS>            통계 출력 주기 (0이면 끔, 기본: 1000)
  --no-fec                FEC 복구 끄기
  --low-spec              저사양 프리셋
  --strict                엄격 프리셋 (FCS 검증, 롤백 금지)
  -v, --verbose           debug 로그 출력
  -h, --help              이 도움말 출력

로그 레벨은 RUST_LOG로 지정 (기본: info)

"

end Options

end AirLink
