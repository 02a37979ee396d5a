import AirLink.FileFault
import AirLink.Limits
import AirLink.Text.Numeral

/-! # Faults

Everything that can go wrong with a frame, a session, a configuration or a file, by cause.  Each
fault belongs to one class, which decides how a receiver reacts to it, and has one wording.
-/

namespace AirLink

inductive CipherFault where
  | sessionNotOpened
  | dataNotAuthentic
  | wrongLength (expected got : Nat)
  deriving DecidableEq, Repr

/-- The stage of reading at which a string turned out too short. -/
inductive Stage where
  | radiotap
  | checksum
  | dot11
  | packet
  | dataPacket
  | sessionPacket
  | sessionOffer
  | fragment
  | relay
  | sessionCipher
  | dataCipher
  deriving DecidableEq, Repr

inductive RadiotapFault where
  | unsupportedVersion
  | lengthTooSmall
  | bitmapBeyondHeader
  | fieldBeyondHeader
  | vendorHeaderCut
  | vendorDataBeyondHeader
  deriving DecidableEq, Repr

inductive ShareFault where
  | shareCount
  | bufferTooSmall
  | inputCount
  | inputTooShort
  | badIndex
  | outputCount
  | singularMatrix
  | tooFewParityShares
  deriving DecidableEq, Repr

/-- What could not be allocated.  Only the arena of a window is taken into account, which grows with the
settings and with the code that is announced.  The matrices of a code have at most 255 rows and columns, and
the buffers that a session works with are not larger than a packet; they are taken to be there. -/
inductive Resource where
  | window
  deriving DecidableEq, Repr

inductive KeyFileFault where
  | wrongSize (got : Nat)
  | unreadable (path : String) (cause : FileFault)
  deriving DecidableEq, Repr

/-- Why settings are refused. -/
inductive SettingsFault where
  | noWindow
  | fragmentSize (got : Nat)
  | emptyWindow
  deriving DecidableEq, Repr

/-- Everything that can go wrong, by cause. -/
inductive Fault where
  | file (cause : FileFault)
  | cipher (cause : CipherFault)
  | truncated (stage : Stage) (need got : Nat)
  | oversized (max got : Nat)
  | radiotap (cause : RadiotapFault)
  | unsupportedVersion (version : Nat)
  | notDataFrame (kind : Nat)
  | unsupportedSubtype (subtype : Nat)
  | invalidSignature (expected got : UInt16)
  | unknownPacketType (tag : UInt8)
  | blockIndexOverflow (block : Nat)
  | fragmentIndexOverflow (fragment n : Nat)
  | staleEpoch (current got : Nat)
  | channelMismatch (expected got : UInt32)
  | unsupportedScheme (code : UInt8)
  | invalidCodeSize (k n : Nat)
  | shares (cause : ShareFault)
  | exhausted (resource : Resource)
  | handlerLimit (max : Nat)
  | keyFile (cause : KeyFileFault)
  | settings (cause : SettingsFault)
  deriving DecidableEq, Repr

inductive FaultClass where
  | format
  | crypto
  | handshake
  | resource
  | system
  deriving DecidableEq, Repr

namespace CipherFault

def message : CipherFault → String
  | sessionNotOpened => "세션 복호화 실패: 키쌍 불일치 또는 손상된 프레임"
  | dataNotAuthentic => "데이터 인증 실패"
  | wrongLength expected got =>
    "잘못된 크기: expected " ++ toString expected ++ ", got " ++ toString got

end CipherFault

namespace Stage

def name : Stage → String
  | radiotap => "radiotap"
  | checksum => "fcs"
  | dot11 => "802.11"
  | packet => "wfb"
  | dataPacket => "wfb data"
  | sessionPacket => "wfb session"
  | sessionOffer => "session data"
  | fragment => "fragment"
  | relay => "mirror"
  | sessionCipher => "session cipher"
  | dataCipher => "data cipher"

end Stage

namespace RadiotapFault

def message : RadiotapFault → String
  | unsupportedVersion => "지원하지 않는 버전"
  | lengthTooSmall => "헤더 길이가 너무 짧음"
  | bitmapBeyondHeader => "present 비트맵이 헤더를 넘음"
  | fieldBeyondHeader => "필드가 헤더를 넘음"
  | vendorHeaderCut => "vendor 네임스페이스 헤더가 잘림"
  | vendorDataBeyondHeader => "vendor 데이터가 헤더를 넘음"

end RadiotapFault

namespace ShareFault

def message : ShareFault → String
  | shareCount => "조각 개수 불일치"
  | bufferTooSmall => "출력 버퍼 부족"
  | inputCount => "입력 조각 개수 불일치"
  | inputTooShort => "조각이 size보다 짧음 (0 패딩 필요)"
  | badIndex => "잘못된 조각 인덱스"
  | outputCount => "출력 조각 개수 불일치"
  | singularMatrix => "특이 행렬"
  | tooFewParityShares => "패리티 조각 부족"

end ShareFault

namespace Resource

def name : Resource → String
  | window => "링 버퍼"

end Resource

namespace KeyFileFault

def message : KeyFileFault → String
  | wrongSize got =>
    "키 파일 크기 불일치: expected " ++ toString (2 * Limits.key) ++ ", got " ++ toString got
  | unreadable path cause => path ++ ": " ++ cause.message

end KeyFileFault

namespace SettingsFault

def message : SettingsFault → String
  | noWindow => "ring_size는 1 이상이어야 함"
  | fragmentSize got =>
    "fragment_size 범위 초과: " ++ toString got ++ " (최대 " ++ toString Limits.fragment ++ ")"
  | emptyWindow => "링 버퍼 크기는 0일 수 없음"

end SettingsFault

namespace Fault

def kind : Fault → FaultClass
  | file _ | keyFile _ | settings _ | handlerLimit _ => .system
  | cipher _ => .crypto
  | staleEpoch .. | channelMismatch .. | unsupportedScheme _ | invalidCodeSize .. | shares _ =>
    .handshake
  | exhausted _ => .resource
  | truncated .. | oversized .. | radiotap _ | unsupportedVersion _ | notDataFrame _
  | unsupportedSubtype _ | invalidSignature .. | unknownPacketType _ | blockIndexOverflow _
  | fragmentIndexOverflow .. => .format

def message : Fault → String
  | file cause => "IO 에러: " ++ cause.message
  | cipher cause => "암호 에러: " ++ cause.message
  | truncated stage need got =>
    "프레임이 너무 짧음 (" ++ stage.name ++ "): need " ++ toString need ++ ", got " ++ toString got
  | oversized max got =>
    "프레임이 너무 큼: max " ++ toString max ++ ", got " ++ toString got
  | radiotap cause => "잘못된 radiotap 헤더: " ++ cause.message
  | unsupportedVersion version => "지원하지 않는 802.11 버전: " ++ toString version
  | notDataFrame kind => "데이터 프레임 아님: type " ++ toString kind
  | unsupportedSubtype subtype => "지원하지 않는 서브타입: " ++ toString subtype
  | invalidSignature expected got =>
    "유효하지 않은 시그니처: expected " ++ Numeral.hexUpper 4 expected.toNat ++ ", got "
      ++ Numeral.hexUpper 4 got.toNat
  | unknownPacketType tag => "알 수 없는 패킷 타입: 0x" ++ Numeral.hexLower 2 tag.toNat
  | blockIndexOverflow block => "블록 인덱스 범위 초과: " ++ toString block
  | fragmentIndexOverflow fragment n =>
    "프래그먼트 인덱스 범위 초과: " ++ toString fragment ++ " >= " ++ toString n
  | staleEpoch current got =>
    "에포크 롤백: current " ++ toString current ++ ", got " ++ toString got
  | channelMismatch expected got =>
    "채널 ID 불일치: expected " ++ Numeral.hexUpper 8 expected.toNat ++ ", got "
      ++ Numeral.hexUpper 8 got.toNat
  | unsupportedScheme code => "지원하지 않는 FEC 타입: " ++ toString code.toNat
  | invalidCodeSize k n => "유효하지 않은 FEC 파라미터: k=" ++ toString k ++ ", n=" ++ toString n
  | shares cause => "FEC 복구 실패: " ++ cause.message
  | exhausted resource => "자원 부족: " ++ resource.name
  | handlerLimit max => "핸들러 한도 초과: 최대 " ++ toString max
  | keyFile cause => "키 파일 오류: " ++ cause.message
  | settings cause => "설정 오류: " ++ cause.message

end Fault

end AirLink
