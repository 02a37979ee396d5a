import AirLink.Assembly
import AirLink.Bytes
import AirLink.Checksum
import AirLink.Cipher.Aead
import AirLink.Cipher.ChaCha20
import AirLink.Cipher.Curve25519
import AirLink.Cipher.Keystream
import AirLink.Cipher.Poly1305
import AirLink.Cipher.Salsa20
import AirLink.Cipher.SealedBox
import AirLink.Counters
import AirLink.Dot11
import AirLink.Emission
import AirLink.Erasure.Code
import AirLink.Erasure.Matrix
import AirLink.Fault
import AirLink.FileFault
import AirLink.FileTree
import AirLink.GF256
import AirLink.Keys
import AirLink.Layout
import AirLink.Limits
import AirLink.Main
import AirLink.Options
import AirLink.Packet
import AirLink.Path
import AirLink.Program
import AirLink.Radiotap
import AirLink.Receiver
import AirLink.Relay
import AirLink.RelayLoop
import AirLink.Session
import AirLink.Settings
import AirLink.Sink
import AirLink.SystemTree
import AirLink.Text.CharRange
import AirLink.Text.Combining
import AirLink.Text.Decimal
import AirLink.Text.Hex
import AirLink.Text.Hidden
import AirLink.Text.Ipv6
import AirLink.Text.Lines
import AirLink.Text.Numeral
import AirLink.Text.Quoted
import AirLink.Transmitter
import AirLink.Window
import AirLink.Proofs.Elimination
import AirLink.Proofs.Erasure
import AirLink.Proofs.Recovery
import AirLink.Proofs.Window
import AirLink.Proofs.Admission
import AirLink.Proofs.Ordering
import AirLink.Proofs.Blocks
import AirLink.Proofs.Contents
import AirLink.Proofs.Delivery
import AirLink.Proofs.Dispatch
import AirLink.Proofs.Events
import AirLink.Proofs.Hearing
import AirLink.Proofs.Replay
import AirLink.Proofs.Intake
import AirLink.Proofs.Provenance
import AirLink.Proofs.Lifetime
import AirLink.Proofs.Atomicity
import AirLink.Proofs.Frames
import AirLink.Proofs.Relaying
import AirLink.Proofs.Occupancy
import AirLink.Proofs.Turnover
import AirLink.Proofs.Passage
import AirLink.Proofs.Storage
import AirLink.Proofs.Decoding
import AirLink.Proofs.Encoding
import AirLink.Proofs.Forgery
import AirLink.Proofs.Framing
import AirLink.Proofs.Verdict
import AirLink.Proofs.Depth
import AirLink.Proofs.Refusal
import AirLink.Proofs.Completion
import AirLink.Proofs.Resting
import AirLink.Proofs.Coherence
import AirLink.Proofs.Binding
import AirLink.Proofs.Epochs
import AirLink.Proofs.Records
import AirLink.Proofs.Grammar
import AirLink.Proofs.Nonces
import AirLink.Proofs.Balance
import AirLink.Proofs.Census
import AirLink.Proofs.Interpolation
import AirLink.Proofs.Checked.Words
import AirLink.Proofs.Checked.Radiotap
import AirLink.Proofs.Composition
import AirLink.Proofs.Checked.Headers
import AirLink.Proofs.Checked.Matrices
import AirLink.Proofs.Checked.Shares
import AirLink.Proofs.Checked.Ring
import AirLink.Proofs.Checked.Blocks
import AirLink.Proofs.Checked.Rebuild
import AirLink.Proofs.Checked.Arena
import AirLink.Proofs.Checked.Engine
import AirLink.Proofs.Checked.Inversion
import AirLink.Proofs.Checked.Assembly
import AirLink.Proofs.Checked.Session
import AirLink.Proofs.Checked.Receiver
import AirLink.Proofs.Bursts
import AirLink.Proofs.Agreement
import AirLink.Proofs.Datagrams
import AirLink.Proofs.Presets
import AirLink.Proofs.Writing
