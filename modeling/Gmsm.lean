import Gmsm.Bytes
import Gmsm.SyncPool
import Gmsm.Sm2.KeyPool
import Gmsm.Sm2.Refinement
import Gmsm.Sm2.Batch
import Gmsm.Sm3.HasherPool
import Gmsm.Sm3.Refinement
import Gmsm.Sm4.Modes
