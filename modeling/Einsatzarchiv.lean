import Einsatzarchiv.Cbor.Licence
import Einsatzarchiv.Trust.Authority
import Einsatzarchiv.Verify.Exit
import Einsatzarchiv.Verify.Gaps
import Einsatzarchiv.Verify.Isolation
import Einsatzarchiv.Destruction.State
import Einsatzarchiv.Verify.Succession
import Einsatzarchiv.Verify.Delivery
import Einsatzarchiv.Server.Replay
import Einsatzarchiv.Server.Agreement
import Einsatzarchiv.Writer.Exclusion
import Einsatzarchiv.Writer.Reservation
import Einsatzarchiv.Sync.Uploads
import Einsatzarchiv.Reader.Removal
import Einsatzarchiv.Files.Pointers
import Einsatzarchiv.Protocol.Cursor
import Einsatzarchiv.Writer.Lasting
